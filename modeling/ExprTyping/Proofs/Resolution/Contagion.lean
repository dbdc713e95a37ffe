import ExprTyping.Proofs.Arena.Check
import ExprTyping.Proofs.Resolution.Run
import ExprTyping.Proofs.Visit.Calls

/-!
# Failures spread upward

After a full run, every expression with a failed operand has failed itself, unless it is an
assignment, and a loop over something that failed has declared its variable as failed by the time
its body is visited (`Resolver.resolveTypes_contagious`).

For expressions this is read off the notes that the run leaves, and not off the verdicts: a call may
give its callee a type after the callee has failed, but then the call itself has not failed.

A loop whose variable has nowhere to be declared declares nothing
(`Resolver.not_declared_without_scope`).
-/

namespace ExprTyping

/-! ## Loops -/

theorem Rule.loopElement_errorType (catalog : Catalog) :
    loopElement catalog (some .errorType) = (.errorType, none) := rfl

namespace Setting

variable {s : Setting} {opens : Program → Bool} {target : ExprId → ExprNote} {rank : StmtId → ℕ}

/-- When the visit comes to the body of a loop, the loop's variable is declared with the type of the
elements of what the loop iterates over. -/
theorem exists_bound (wf : s.arena.WellFormed)
    (hopens : ∀ Q, s.arena.Holds Q → opens Q = s.arena.owns Q.id) {o : Outcome} {c d : Call}
    (hc : s.Follows opens target rank o c) (hd : s.Calls c d) {name : String} {x : ExprId}
    {body : StmtId} {parent : Option StmtId} {ownsScope : Bool}
    (node : s.arena.stmt c.stmt = .ok ⟨.forIn (.identifier name) x body, parent, ownsScope⟩) :
    ∃ X env, X.id = x ∧ (s.lexicon.evaluate [X] env).1.Within o ∧
      (d.progress.notes.scope (s.arena.binder c.stmt body)).find? name =
        some ⟨name, (Rule.loopElement s.catalog (s.lexicon.judge env X).label.type).1⟩ := by
  obtain ⟨depth, stmt, p⟩ := c
  obtain ⟨⟨id, shape⟩, initial, env, hQ, hid, -, ready, hwithin⟩ := hc
  obtain rfl : id = stmt := hid
  obtain ⟨parent', ownsScope', hnode⟩ := hQ.exists_node
  cases shape with
  | forIn pattern X B =>
    cases node.symm.trans hnode
    have hstage := Stage.start (hopens _ hQ) ready hQ.children_eq
    have hinside := (Lexicon.inside_within s.lexicon opens _ initial env).trans hwithin
    have htarget := ready_inside_target ready
    generalize (if opens _ then initial :: env else env) = inner at hstage hinside htarget
    have hX := (Lexicon.iterated_within s.lexicon opens id (.identifier name) X B inner).trans
      hinside
    cases hd with
    | block node' | body node' | otherwise node' | whileLoop node' => cases node.symm.trans node'
    | forIn node' iterated bind =>
      cases node.symm.trans node'
      obtain ⟨q, hq, -⟩ := hstage.expr wf (hQ.expr (List.mem_singleton.2 rfl)) rfl ready.prepared
        fun hs f hf => htarget hs f
          ((Lexicon.iterated_within s.lexicon opens id _ X B inner).findings hf)
      cases iterated.symm.trans hq
      obtain ⟨_, _, hB⟩ := (hQ.stmt (List.mem_singleton.2 rfl) : s.arena.Holds B).exists_node
      cases bind.symm.trans (bindLoop_run id (Arena.contains_of_stmt hB) _ _ _)
      refine ⟨X, inner, rfl, hX, ?_⟩
      show (Notes.scope (Notes.recordAll _ (s.arena.binder id B.id) _) _).find? name = _
      rw [Notes.scope_recordAll, if_pos rfl]
      exact Scope.find?_record_self _ ⟨name, _⟩
  | _ => cases node.symm.trans hnode

end Setting

namespace Resolver

variable {r r' : Resolver} {t t' : Tree} {root : StmtId}

/-- While the run from a root goes on, the visit comes to the call. -/
def Comes (r : Resolver) (t : Tree) (root : StmtId) (c : Call) : Prop :=
  ∃ notes, r.purge t root = .ok notes ∧ Relation.ReflTransGen (r.setting t.arena).Calls
    ⟨t.arena.stmts.size + 1, root, ⟨notes, r.diagnostics⟩⟩ c

/-- The run's first call is the root's, and follows the walk. -/
theorem exists_start (hmode : r.skipsResolved = false) (wf : t.arena.WellFormed)
    (hroot : t.contains (.stmt root)) {rank : StmtId → ℕ}
    (hle : ∀ s, rank s ≤ t.arena.stmts.size) :
    ∃ notes target, r.purge t root = .ok notes ∧
      (r.setting t.arena).Follows t.arena.opens target rank (r.reference t t.arena.opens root).1
        ⟨t.arena.stmts.size + 1, root, ⟨notes, r.diagnostics⟩⟩ := by
  have hskips : r.skipsResolved = true → r.Restorable t t.arena.opens root :=
    restorable_of_not_skips hmode
  obtain ⟨notes, target, P, hnotes, -, hP, rfl, href, ready⟩ := exists_ready wf hroot hskips
  rw [href]
  exact ⟨notes, target, hnotes, P, {}, _, hP, rfl, Nat.lt_succ_of_le (hle P.id), ready, .refl _⟩

/-! ## Expressions -/

/-- The notes left on an expression and its operands are those of one term. -/
theorem Leaves.type_of_failed (wf : t.arena.WellFormed) (hroot : t.contains (.stmt root))
    {env : Env} (h : Leaves r r' t t' root (r.reference t t.arena.opens root).1 env) {e x : ExprId}
    {node : ExprNode} (he : t.arena.Below (.stmt root) (.expr e))
    (hnode : t.arena.expr e = .ok node) (hassign : ∀ l op y, node.kind ≠ .assignment l op y)
    (hx : x ∈ node.kind.slots) (hfailed : t'.notes.type x = some .errorType) :
    t'.notes.type e = some .errorType := by
  obtain ⟨P, hP, rfl, href⟩ := exists_reference wf hroot r t.arena.opens
  rw [href] at h
  obtain ⟨K, env', n, hK, rfl, hleaves, hsub⟩ := Lexicon.exists_context r.lexicon t.arena.opens wf
    hP he {} (t.arena.framesAbove t.notes (.stmt P.id))
  obtain ⟨parent, hnode'⟩ := hK.exists_node
  cases hnode.symm.trans hnode'
  rw [Expr.slots_map] at hx
  obtain ⟨X, hX, rfl⟩ := List.mem_map.1 hx
  have hnote : t'.notes.expr K.id = n := h.note _ (hsub Lexicon.own_mem_findings)
  have hnote_X : t'.notes.expr X.id =
      (r.lexicon.judge env' K).noteOn (r.lexicon.judge env' X) :=
    h.note _ (hsub (Lexicon.mem_findings_of_operand hX Lexicon.own_mem_findings))
  rw [Notes.type, hnote_X] at hfailed
  rw [Notes.type, hnote]
  rcases hleaves with rfl | ⟨receiver, name, parameters, result, hshape, hreceiver, -⟩
  · refine Lexicon.judge_failed wf hK hX (fun l op y hk => ?_) hfailed
    exact hassign l.id op y.id (by rw [hk]; rfl)
  · -- A settled callee is a member of something that has not failed.
    rw [Lexicon.judge_shape] at hshape
    cases hk : K.shape with
    | member y other =>
      rw [hk] at hshape hX
      cases hshape
      obtain rfl := List.mem_singleton.1 hX
      have hcallee : (r.lexicon.judge env' K).shape.callee? = none := by
        rw [Lexicon.judge_shape, hk]
        rfl
      rw [Term.noteOn, hcallee, if_neg (fun h => by cases h)] at hfailed
      exact absurd hfailed hreceiver
    | _ => rw [hk] at hshape; cases hshape

/-! ## The whole run -/

/-- What the visit comes to inside a statement is called from that statement. -/
theorem Comes.exists_calls (wf : t.arena.WellFormed) {c : Call} (hc : r.Comes t root c)
    {loop : StmtId} (hloop : t.arena.Below (.stmt root) (.stmt loop))
    (hchild : t.arena.Child (.stmt loop) (.stmt c.stmt)) :
    ∃ d, r.Comes t root d ∧ d.stmt = loop ∧ (r.setting t.arena).Calls d c := by
  obtain ⟨notes, hnotes, hcalls⟩ := hc
  rcases Relation.ReflTransGen.cases_tail hcalls with rfl | ⟨d, hd, hdc⟩
  · exact absurd hloop (wf.not_below_of_child hchild)
  · refine ⟨d, ⟨notes, hnotes, hd⟩, ?_, hdc⟩
    have hparent := (wf.child_iff_parent _ _).1 hchild
    exact NodeId.stmt.inj (((wf.child_iff_parent _ _).1 hdc.child).unique hparent)

/-- When the visit comes to the body of a loop over something that failed, the loop's variable is
declared as failed. -/
theorem Leaves.find?_of_failed (wf : t.arena.WellFormed) {o : Outcome} {env : Env}
    (h : Leaves r r' t t' root o env) {target : ExprId → ExprNote} {rank : StmtId → ℕ} {c d : Call}
    (hc : (r.setting t.arena).Follows t.arena.opens target rank o c)
    (hd : (r.setting t.arena).Calls c d) {name : String} {x : ExprId} {body : StmtId}
    {parent : Option StmtId} {ownsScope : Bool}
    (node : t.arena.stmt c.stmt = .ok ⟨.forIn (.identifier name) x body, parent, ownsScope⟩)
    (hfailed : t'.notes.type x = some .errorType) :
    (d.progress.notes.scope (t.arena.binder c.stmt body)).find? name =
      some ⟨name, .errorType⟩ := by
  obtain ⟨X, env', rfl, hwithin, hfind⟩ := Setting.exists_bound wf (fun _ _ => rfl) hc hd node
  have hmem : ⟨X.id, (r.lexicon.judge env' X).label.note⟩ ∈
      (r.lexicon.evaluate [X] env').1.findings :=
    List.mem_flatMap.2 ⟨X, List.mem_singleton.2 rfl, Lexicon.own_mem_findings⟩
  rw [Notes.type, h.note _ (hwithin.findings hmem)] at hfailed
  refine hfind.trans ?_
  show some (Definition.mk name
    (Rule.loopElement r.catalog (r.lexicon.judge env' X).label.note.type).1) = _
  rw [hfailed, Rule.loopElement_errorType]

/-- After a run that skips nothing, an expression with a failed operand has failed, unless it is an
assignment. The variable of a loop over something that failed is declared as failed whenever the
visit comes to the loop's body, and it does. -/
theorem resolveTypes_contagious {r : Resolver} (hmode : r.skipsResolved = false) {t : Tree}
    (wf : t.arena.WellFormed) {root : StmtId} (hroot : t.contains (.stmt root)) :
    ∃ t' r', r.resolveTypes t root = .ok (t', r') ∧
      (∀ e node, t.arena.Below (.stmt root) (.expr e) → t.arena.expr e = .ok node →
        (∀ l op y, node.kind ≠ .assignment l op y) →
        (∃ x ∈ node.kind.slots, t'.notes.type x = some .errorType) →
          t'.notes.type e = some .errorType) ∧
      ∀ loop name x body parent ownsScope, t.arena.Below (.stmt root) (.stmt loop) →
        t.arena.stmt loop = .ok ⟨.forIn (.identifier name) x body, parent, ownsScope⟩ →
        t'.notes.type x = some .errorType → (t.arena.owns body ∨ t.arena.owns loop) →
          (∃ c, r.Comes t root c ∧ c.stmt = body) ∧
          ∀ c, r.Comes t root c → c.stmt = body →
            ∃ scope, Tree.scope? ⟨t.arena, c.progress.notes⟩ (t.arena.binder loop body) =
              .ok (some scope) ∧ scope.find? name = some ⟨name, .errorType⟩ := by
  obtain ⟨t', r', hrun, hleaves⟩ := run_leaves wf hroot (restorable_of_not_skips hmode)
  refine ⟨t', r', hrun, fun e node he hnode hassign ⟨x, hx, hfailed⟩ =>
    hleaves.type_of_failed wf hroot he hnode hassign hx hfailed, ?_⟩
  intro loop name x body parent ownsScope hloop node hfailed howns
  have hchild : t.arena.Child (.stmt loop) (.stmt body) :=
    (Arena.child_stmt_iff node).2 (.inr ⟨body, List.mem_singleton.2 rfl, rfl⟩)
  obtain ⟨rank, hle, hrank⟩ := wf.exists_stmtRank
  obtain ⟨notes, target, hnotes, hstart⟩ := exists_start hmode wf hroot hle
  have hopens : ∀ Q, t.arena.Holds Q → t.arena.opens Q = t.arena.owns Q.id := fun _ _ => rfl
  constructor
  · obtain ⟨c, hc, rfl⟩ := hstart.exists_comes wf hrank hopens
      (Relation.ReflTransGen.tail hloop hchild)
    exact ⟨c, ⟨notes, hnotes, hc⟩, rfl⟩
  · rintro c hc rfl
    obtain ⟨d, ⟨notes', hnotes', hd⟩, rfl, hdc⟩ := hc.exists_calls wf hloop hchild
    cases hnotes.symm.trans hnotes'
    refine ⟨_, Tree.scope?_of_owns (Arena.owns_binder howns), ?_⟩
    exact hleaves.find?_of_failed wf (hstart.of_comes wf hrank hopens hd) hdc node hfailed

/-- `for i in missing { i.size }` -/
def unknown : Tree where
  arena := {
    exprs := #[
      ⟨.identifier "missing", some (.stmt ⟨2⟩)⟩,
      ⟨.identifier "i", some (.expr ⟨2⟩)⟩,
      ⟨.member ⟨1⟩ "size", some (.stmt ⟨0⟩)⟩]
    stmts := #[
      ⟨.expressions [⟨2⟩], some ⟨1⟩, false⟩,
      ⟨.block [⟨0⟩], some ⟨2⟩, true⟩,
      ⟨.forIn (.identifier "i") ⟨0⟩ ⟨1⟩, none, true⟩] }

/-- What the loop iterates over fails, then its variable and what the body does with it. -/
theorem resolveTypes_unknown :
    unknown.arena.WellFormed ∧ unknown.contains (.stmt ⟨2⟩) ∧
      ∃ t' r', resolveTypes { catalog := {} } unknown ⟨2⟩ = .ok (t', r') ∧
        t'.notes.type ⟨2⟩ = some .errorType ∧
        (∃ c, Comes { catalog := {} } unknown ⟨2⟩ c ∧ c.stmt = ⟨1⟩) ∧
        ∀ c, Comes { catalog := {} } unknown ⟨2⟩ c → c.stmt = ⟨1⟩ →
          ∃ scope, Tree.scope? ⟨unknown.arena, c.progress.notes⟩ ⟨1⟩ = .ok (some scope) ∧
            scope.find? "i" = some ⟨"i", .errorType⟩ := by
  have wf : unknown.arena.WellFormed := Arena.wellFormed_of_check (by decide)
  have hroot : unknown.contains (.stmt ⟨2⟩) := by rfl
  obtain ⟨t', r', hrun, hexprs, hloops⟩ :=
    resolveTypes_contagious (r := { catalog := {} }) rfl wf hroot
  have hfailed : t'.notes.type ⟨0⟩ = some .errorType ∧ t'.notes.type ⟨1⟩ = some .errorType := by
    cases hrun
    exact ⟨rfl, rfl⟩
  refine ⟨wf, hroot, t', r', hrun, ?_, ?_⟩
  · have hbelow := (wf.mem_nodes (n := .expr ⟨2⟩) hroot rfl).1 (by decide)
    refine hexprs ⟨2⟩ _ hbelow rfl (fun _ _ _ h => by cases h) ⟨⟨1⟩, ?_, hfailed.2⟩
    exact List.mem_singleton.2 rfl
  · exact hloops ⟨2⟩ "i" ⟨0⟩ ⟨1⟩ none true (.refl _) rfl hfailed.1 (.inl rfl)

/-- `for i in missing i`, made as a loop with a condition: no name can be declared in it. -/
def undeclared : Tree where
  arena := {
    exprs := #[
      ⟨.identifier "missing", some (.stmt ⟨1⟩)⟩,
      ⟨.identifier "i", some (.stmt ⟨0⟩)⟩]
    stmts := #[
      ⟨.expressions [⟨1⟩], some ⟨1⟩, false⟩,
      ⟨.forIn (.identifier "i") ⟨0⟩ ⟨0⟩, none, false⟩] }

/-- The variable of a loop is not declared as failed if neither the loop nor its body has a
scope. -/
theorem not_declared_without_scope :
    ¬ ∀ (r : Resolver) (t : Tree) (root : StmtId), r.skipsResolved = false → t.arena.WellFormed →
      t.contains (.stmt root) → ∃ t' r', r.resolveTypes t root = .ok (t', r') ∧
        ∀ loop name x body parent ownsScope, t.arena.Below (.stmt root) (.stmt loop) →
          t.arena.stmt loop = .ok ⟨.forIn (.identifier name) x body, parent, ownsScope⟩ →
          t'.notes.type x = some .errorType →
            (∃ c, r.Comes t root c ∧ c.stmt = body) ∧
            ∀ c, r.Comes t root c → c.stmt = body →
              ∃ s scope, Tree.scope? ⟨t.arena, c.progress.notes⟩ s = .ok (some scope) ∧
                scope.find? name = some ⟨name, .errorType⟩ := by
  intro h
  have wf : undeclared.arena.WellFormed := Arena.wellFormed_of_check (by decide)
  have hroot : undeclared.contains (.stmt ⟨1⟩) := by rfl
  obtain ⟨t', r', hrun, hloops⟩ := h { catalog := {} } undeclared ⟨1⟩ rfl wf hroot
  have hfailed : t'.notes.type ⟨0⟩ = some .errorType := by
    cases hrun
    rfl
  obtain ⟨⟨c, hc, hbody⟩, hdeclared⟩ :=
    hloops ⟨1⟩ "i" ⟨0⟩ ⟨0⟩ none false (.refl _) rfl hfailed
  obtain ⟨⟨i⟩, scope, hscope, -⟩ := hdeclared c hc hbody
  match i with
  | 0 => cases hscope
  | 1 => cases hscope
  | _ + 2 => cases hscope

end Resolver
end ExprTyping
