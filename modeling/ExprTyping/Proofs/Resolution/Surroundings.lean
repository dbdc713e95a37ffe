import ExprTyping.Proofs.Lexical.Declared
import ExprTyping.Proofs.Resolution.Node

/-!
# What an expression was typed with

After a run, every name that an expression was typed with is declared in some scope around the
expression (`Resolver.exists_surrounded`). So a name that no scope around the expression declares
had its meaning from elsewhere, or none.

What carries this through a walk is `Lexicon.Settled`: the notes hold the scopes that the walk
finds, and what the walk leaves around its program is declared there. It is handed on to every leg
(`Lexicon.Settled.leg`).
-/

namespace ExprTyping

namespace Arena

variable {a : Arena} {notes : Notes} {s : StmtId}

theorem frames_of_owns (h : a.owns s = true) :
    a.frames notes (.stmt s) = notes.scope s :: a.framesAbove notes (.stmt s) := by
  rw [frames, owners_of_owns h, List.map_cons, framesAbove]

theorem frames_of_not_owns (h : a.owns s = false) :
    a.frames notes (.stmt s) = a.framesAbove notes (.stmt s) := by
  rw [frames, owners_of_not_owns h, framesAbove]

end Arena

/-! ## Walks whose scopes are noted -/

namespace Lexicon

variable {L : Lexicon} {a : Arena} {notes : Notes} {c d : Leg} {T : Term Mark} {x : ExprId}

/-- Typing a term finds a note on every expression below it. The note is the expression's own unless
the expression is called. -/
theorem exists_context_term (L : Lexicon) (env : Env) (wf : a.WellFormed) (hT : a.HoldsTerm T)
    (hx : a.Below (.expr T.id) (.expr x)) :
    ∃ note, (L.judge env (a.term x)).Leaves note ∧
      (a.isCallee x = .ok false → note = (L.judge env (a.term x)).label.note) ∧
      (L.judge env (a.term x)).findings note ⊆
        (L.judge env T).findings (L.judge env T).label.note := by
  obtain ⟨K, note, hK, rfl, ⟨hleaves, hown⟩, hsub⟩ := exists_context_term_of (L := L)
    (C := fun K note => (L.judge env K).Leaves note ∧
      (K.label.isCallee = false → note = (L.judge env K).label.note))
    (fun _ _ hT hx => ⟨leaves_noteOn wf hT hx, noteOn_of_not_callee wf hT hx⟩) hT hx
    ⟨.inl rfl, fun _ => rfl⟩
  rw [← wf.eq_term hK]
  exact ⟨note, hleaves, fun hcalled => hown (Except.ok.inj (hK.isCallee_eq.symm.trans hcalled)),
    hsub⟩

/-- The notes hold the scopes that the walk finds, and what the walk leaves around its program is
declared around it. -/
structure Settled (L : Lexicon) (a : Arena) (notes : Notes) (c : Leg) : Prop where
  scope : ∀ y ∈ (L.take a.opens c).scopes, notes.scope y.1 = y.2
  outside : (c.outside a.opens).DeclaredIn (a.framesAbove notes (.stmt c.program.id))

namespace Settled

/-- What the walk leaves inside its frame is declared there. -/
theorem closing (h : L.Settled a notes c) :
    (L.closing a.opens c).DeclaredIn (a.frames notes (.stmt c.program.id)) := by
  have houtside := h.outside
  rw [Leg.outside] at houtside
  cases howns : a.owns c.program.id with
  | true =>
    have hopens : a.opens c.program = true := howns
    have hscope : notes.scope c.program.id = (L.closing a.opens c).headD {} := by
      refine h.scope (c.program.id, _) ?_
      rw [scopes_take, if_pos hopens]
      exact List.mem_append_right _ List.mem_cons_self
    rw [Program.declares_of_opens _ hopens, Env.declare_nil] at houtside
    rw [Arena.frames_of_owns howns, hscope, Lexicon.closing, Leg.inside, if_pos hopens]
    exact houtside.cons _
  | false =>
    have hopens : ¬ a.opens c.program = true := by simp [Arena.opens, howns]
    rw [Arena.frames_of_not_owns howns, Lexicon.closing, L.inner_of_not_opens _ hopens, Leg.inside,
      if_neg hopens]
    exact houtside

theorem leg (wf : a.WellFormed) (hc : a.Holds c.program) (h : L.Settled a notes c)
    (hd : d ∈ L.legs a.opens c) : L.Settled a notes d where
  scope y hy := by
    refine h.scope y ?_
    rw [scopes_take]
    exact List.mem_append_left _ (List.mem_flatMap.2 ⟨d, hd, hy⟩)
  outside := by
    rw [wf.framesAbove_child (hc.child_stmt (L.program_mem_of_leg a.opens hd))]
    exact (outside_declaredIn hd).trans h.closing

/-- An expression below the walk's program is typed in an environment whose names are all declared
around it. The note found on it is its own unless it is called. -/
theorem exists_typing (wf : a.WellFormed) (hc : a.Holds c.program) (h : L.Settled a notes c)
    (hx : a.Below (.stmt c.program.id) (.expr x)) :
    ∃ env note, env.DeclaredIn (a.framesAbove notes (.expr x)) ∧
      (L.judge env (a.term x)).Leaves note ∧
      (a.isCallee x = .ok false → note = (L.judge env (a.term x)).label.note) ∧
      (L.judge env (a.term x)).findings note ⊆ (L.take a.opens c).findings := by
  induction c using L.leg_induct a.opens with
  | step c ih =>
    rcases hc.eq_or_below hx with hx | ⟨T, hT, hx⟩ | ⟨Q, hQ, hx⟩
    · cases hx
    · have hframes : a.framesAbove notes (.expr x) = a.frames notes (.stmt c.program.id) :=
        (wf.framesAbove_of_below hx).trans (wf.framesAbove_child (hc.child_expr hT))
      obtain ⟨note, hleaves, hown, hsub⟩ := L.exists_context_term
        ((c.inside a.opens).declare c.program.shape.declared) wf (hc.expr hT) hx
      rw [hframes]
      exact ⟨_, note, (L.own_declaredIn a.opens c).trans h.closing, hleaves, hown,
        fun f hf => mem_findings_take.2 ⟨c, .refl, List.mem_flatMap.2 ⟨T, hT, hsub hf⟩⟩⟩
    · obtain ⟨d, hd, rfl⟩ : ∃ d ∈ L.legs a.opens c, d.program = Q := by
        rwa [← L.program_legs a.opens c, List.mem_map] at hQ
      obtain ⟨env, note, hdeclared, hleaves, hown, hsub⟩ :=
        ih d hd (hc.stmt (L.program_mem_of_leg a.opens hd)) (h.leg wf hc hd) hx
      exact ⟨env, note, hdeclared, hleaves, hown, fun f hf =>
        Leads.findings_subset (.of_leg hd .refl) (hsub hf)⟩

end Settled
end Lexicon

/-! ## Runs -/

namespace Resolver

variable {r r' : Resolver} {t t' : Tree} {root : StmtId} {n : NodeId} {x : ExprId}

/-- What is left on an expression is what typing its term leaves, with names that are all declared
around it. Unless the expression is called from below the node, it is the expression's own note. -/
structure Surrounded (r : Resolver) (t : Tree) (n : NodeId) (x : ExprId) (env : Env)
    (note : ExprNote) : Prop where
  declared : env.DeclaredIn (t.arena.framesAbove t.notes (.expr x))
  leaves : (r.lexicon.judge env (t.arena.term x)).Leaves note
  own : t.arena.isCallee x = .ok false ∨ n = .expr x →
    note = (r.lexicon.judge env (t.arena.term x)).label.note
  found : ∀ f ∈ (r.lexicon.judge env (t.arena.term x)).findings note,
    t.notes.expr f.expr = f.note

theorem Leaves.settled (h : Leaves r r' t t' root (r.reference t t.arena.opens root).1
      (r.reference t t.arena.opens root).2) :
    r.lexicon.Settled t.arena t'.notes
      ⟨t.arena.program root, {}, t.arena.framesAbove t.notes (.stmt root)⟩ where
  scope := h.scope
  outside := by
    rw [Arena.program_id, h.frames]
    exact (r.lexicon.walk_env t.arena.opens _ _ _) ▸ .refl _

/-- In default mode, every expression below the node is left typed with names that are declared
around it. -/
theorem exists_surrounded (hmode : r.skipsResolved = false) (wf : t.arena.WellFormed)
    (hn : t.contains n) :
    ∃ t' r', r.resolve t n = .ok (t', r') ∧ t'.arena = t.arena ∧
      ∀ x, t.arena.Below n (.expr x) → ∃ env note, r.Surrounded t' n x env note := by
  cases n with
  | stmt root =>
    obtain ⟨t', r', hrun, h⟩ := run_leaves wf hn (restorable_of_not_skips hmode)
    refine ⟨t', r', hrun, h.arena, fun x hx => ?_⟩
    rw [← t.arena.program_id root] at hx
    obtain ⟨env, note, hdeclared, hleaves, hown, hsub⟩ :=
      h.settled.exists_typing wf (wf.holds_program hn) hx
    refine ⟨env, note, ?_⟩
    constructor <;> rw [h.arena]
    · exact hdeclared
    · exact hleaves
    · exact fun hfree => hown (hfree.resolve_right (by simp))
    · exact fun f hf => h.note f (hsub hf)
  | expr e =>
    have hT := wf.holds_term hn
    obtain ⟨t', r', hrun, harena, hscope, -, -, hnote⟩ := resolveType_leaves wf hmode hT rfl
    rw [t.arena.term_id] at hrun hnote
    have hframes : t'.arena.framesAbove t'.notes (.expr e) =
        t.arena.framesAbove t.notes (.expr e) := by
      rw [harena]
      exact List.map_congr_left fun s _ => hscope s
    refine ⟨t', r', by rw [resolve, hrun]; rfl, harena, fun x hx => ?_⟩
    have hdeclared : (t.arena.framesAbove t.notes (.expr e)).DeclaredIn
        (t'.arena.framesAbove t'.notes (.expr x)) := by
      rw [← hframes, harena, wf.framesAbove_of_below hx]
      exact .refl _
    by_cases hxe : x = e
    · subst hxe
      exact ⟨_, _, hdeclared, .inl rfl, fun _ => rfl, harena ▸ hnote⟩
    · rw [← t.arena.term_id e] at hx
      obtain ⟨note, hleaves, hown, hsub⟩ := r.lexicon.exists_context_term
        (t.arena.framesAbove t.notes (.expr e)) wf hT hx
      refine ⟨_, note, hdeclared, ?_, ?_, ?_⟩ <;> rw [harena]
      · exact hleaves
      · exact fun hfree => hown (hfree.resolve_right fun h => hxe (NodeId.expr.inj h).symm)
      · exact fun f hf => hnote f (hsub hf)

end Resolver
end ExprTyping
