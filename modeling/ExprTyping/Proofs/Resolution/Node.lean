import ExprTyping.Proofs.Lexical.Cascade
import ExprTyping.Proofs.Lexical.Operands
import ExprTyping.Proofs.Resolution.OnDemand

/-!
# Typing what is at a node

The resolver types everything below a statement, or a single expression (`Resolver.resolve`). Either
way it finds what typing the terms in the scopes around the node finds (`Resolver.outcome`): it
leaves these notes and appends these reports (`Resolver.resolve_leaves`).

What is left at an expression below the node is what typing its term in some environment leaves
(`Resolver.exists_typing`), and what is reported about it is the issue of that typing
(`Resolver.exists_reporting`).
-/

namespace ExprTyping.Resolver

variable {r r' : Resolver} {t t' : Tree} {n : NodeId} {x : ExprId}

/-- Types what is at a node: everything below a statement, or a single expression. -/
def resolve (r : Resolver) (t : Tree) : NodeId → Except ResolveError (Tree × Resolver)
  | .stmt s => r.resolveTypes t s
  | .expr e => (r.resolveType t e).map (·.2)

/-- What there is to find at a node, in the scopes around it. -/
def outcome (r : Resolver) (t : Tree) : NodeId → Outcome
  | .stmt s => (r.reference t t.arena.opens s).1
  | .expr e =>
    (r.lexicon.evaluate [t.arena.term e] (t.arena.framesAbove t.notes (.expr e))).1

/-- The notes at and below an expression are those that typing its term leaves in some
environment. -/
def TypedAt (r : Resolver) (t : Tree) (x : ExprId) : Prop :=
  ∃ env note, (r.lexicon.judge env (t.arena.term x)).Leaves note ∧
    ∀ f ∈ (r.lexicon.judge env (t.arena.term x)).findings note, t.notes.expr f.expr = f.note

/-- What is left at an expression that is neither a call nor a member access is the verdict on it,
and what is left at its operands is the verdicts on them. -/
theorem TypedAt.exists_verdict (h : r.TypedAt t x) (wf : t.arena.WellFormed) {node : ExprNode}
    (hnode : t.arena.expr x = .ok node) (hmember : node.kind.isMember = false)
    (hcallee : node.kind.callee? = none) :
    ∃ env, t.notes.expr x = (r.lexicon.verdict env (t.arena.mark x)
        (node.kind.map fun y => r.lexicon.judge env (t.arena.term y))).note ∧
      ∀ y ∈ node.kind.slots, t.notes.expr y = (r.lexicon.judge env (t.arena.term y)).label.note := by
  obtain ⟨env, note, hleaves, hnote⟩ := h
  have hshape : (t.arena.term x).shape.isMember = false := by
    rw [wf.term_eq hnode, Expr.isMember_map, hmember]
  obtain rfl := Lexicon.note_of_leaves hleaves hshape
  refine ⟨env, ?_, fun y hy => ?_⟩
  · rw [hnote _ (t.arena.own_mem_findings r.lexicon env x _), wf.judge_term r.lexicon env hnode]
  · exact wf.note_operand r.lexicon env hnode hy (by simp [hcallee]) hnote

/-- In default mode, the notes that there are to find are left, and the reports are appended. -/
theorem resolve_leaves (hmode : r.skipsResolved = false) (wf : t.arena.WellFormed)
    (hn : t.contains n) :
    ∃ t' r', r.resolve t n = .ok (t', r') ∧ t'.arena = t.arena ∧
      (∀ f ∈ (r.outcome t n).findings, t'.notes.expr f.expr = f.note) ∧
      r'.diagnostics = r.diagnostics ++ (r.outcome t n).diagnostics := by
  cases n with
  | stmt root =>
    obtain ⟨t', r', hrun, h⟩ := run_leaves wf hn (restorable_of_not_skips hmode)
    exact ⟨t', r', hrun, h.arena, h.note, h.diagnostics hmode⟩
  | expr e =>
    have hT := wf.holds_term hn
    obtain ⟨t', r', hrun, harena, -, -, hdiagnostics, hnote⟩ := resolveType_leaves wf hmode hT rfl
    rw [t.arena.term_id] at hrun hdiagnostics hnote
    refine ⟨t', r', by rw [resolve, hrun]; rfl, harena, ?_, ?_⟩
    · rw [outcome, Lexicon.evaluate_singleton]
      exact hnote
    · rw [outcome, Lexicon.evaluate_singleton]
      exact hdiagnostics

/-- At every expression below the node there is to find what typing its term finds. -/
theorem exists_typing (r : Resolver) (wf : t.arena.WellFormed) (hn : t.contains n)
    (hx : t.arena.Below n (.expr x)) :
    ∃ env note, (r.lexicon.judge env (t.arena.term x)).Leaves note ∧
      (r.lexicon.judge env (t.arena.term x)).findings note ⊆ (r.outcome t n).findings ∧
      (r.lexicon.judge env (t.arena.term x)).diagnostics ⊆ (r.outcome t n).diagnostics := by
  cases n with
  | stmt root =>
    obtain ⟨P, hP, rfl, href⟩ := exists_reference wf hn r t.arena.opens
    obtain ⟨K, env, note, hK, rfl, hleaves, hsub⟩ := Lexicon.exists_typing_of r.lexicon
      t.arena.opens (C := fun env T note => (r.lexicon.judge env T).Leaves note)
      (fun _ _ => .inl rfl) (fun _ _ _ hT hx => Lexicon.leaves_noteOn wf hT hx) hP hx {}
      (t.arena.framesAbove t.notes (.stmt P.id))
    rw [outcome, href, ← wf.eq_term hK]
    exact ⟨env, note, hleaves, hsub⟩
  | expr e =>
    rw [outcome, Lexicon.evaluate_singleton]
    generalize t.arena.framesAbove t.notes (.expr e) = env
    obtain ⟨K, note, hK, rfl, hleaves, hsub⟩ := Lexicon.exists_typing_term_of (L := r.lexicon)
      (C := fun K note => (r.lexicon.judge env K).Leaves note)
      (fun _ _ hT hx => Lexicon.leaves_noteOn wf hT hx) (wf.holds_term hn)
      ((t.arena.term_id e).symm ▸ hx) (.inl rfl)
    rw [← wf.eq_term hK]
    exact ⟨env, note, hleaves, hsub⟩

/-- What is to report about an expression is the issue of typing its term in some environment, and
what that finds is there to find. -/
theorem exists_reporting (r : Resolver) (wf : t.arena.WellFormed) (hn : t.contains n) {i : Issue}
    (hi : ⟨i, .expr x⟩ ∈ (r.outcome t n).diagnostics) :
    ∃ env, (r.lexicon.judge env (t.arena.term x)).label.issue = some i ∧
      (r.lexicon.judge env (t.arena.term x)).findings
          (r.lexicon.judge env (t.arena.term x)).label.note ⊆ (r.outcome t n).findings := by
  cases n with
  | stmt root =>
    have hi : ⟨i, .expr x⟩ ∈ (r.lexicon.take t.arena.opens
      ⟨t.arena.program root, {}, t.arena.framesAbove t.notes (.stmt root)⟩).diagnostics := hi
    rcases Lexicon.exists_reporter wf (wf.holds_program hn) hi with
      ⟨K, env, hK, hnode, hissue, hsub⟩ | ⟨c, -, j, -, hj⟩
    · cases hnode
      rw [← wf.eq_term hK]
      exact ⟨env, hissue, hsub⟩
    · cases hj
  | expr e =>
    rw [outcome, Lexicon.evaluate_singleton] at hi ⊢
    obtain ⟨K, hK, hnode, hissue, hsub⟩ :=
      Lexicon.exists_reporter_term wf (wf.holds_term hn) (.inl rfl) hi
    cases hnode
    rw [← wf.eq_term hK]
    exact ⟨_, hissue, hsub⟩

/-- In default mode, every expression below the node is typed. -/
theorem exists_typedAt (hmode : r.skipsResolved = false) (wf : t.arena.WellFormed)
    (hn : t.contains n) :
    ∃ t' r', r.resolve t n = .ok (t', r') ∧ t'.arena = t.arena ∧
      ∀ x, t.arena.Below n (.expr x) → r.TypedAt t' x := by
  obtain ⟨t', r', hrun, harena, hnote, -⟩ := resolve_leaves hmode wf hn
  refine ⟨t', r', hrun, harena, fun x hx => ?_⟩
  obtain ⟨env, note, hleaves, hsub, -⟩ := r.exists_typing wf hn hx
  refine ⟨env, note, ?_⟩
  rw [harena]
  exact ⟨hleaves, fun f hf => hnote f (hsub hf)⟩

end ExprTyping.Resolver
