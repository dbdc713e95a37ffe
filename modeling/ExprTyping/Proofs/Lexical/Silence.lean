import ExprTyping.Proofs.Lexical.Simulation
import ExprTyping.Proofs.Lexical.Success

/-!
# Walks that report no failure

If a walk in error-free surroundings reports nothing but warnings, and every operand and everything
that a loop iterates over is resolved, then the walk finds no failed expression
(`Lexicon.take_errorFree`).

`Lexicon.Untroubled` is what such a walk hands on along its way: as nothing fails, the environment
in which it goes on is error-free again (`Untroubled.leg`).
-/

namespace ExprTyping

/-- What the walk starts from is error-free. -/
structure Leg.ErrorFree (c : Leg) : Prop where
  initial : c.initial.ErrorFree
  env : c.env.ErrorFree

theorem Leg.ErrorFree.inside {c : Leg} (hc : c.ErrorFree) (opens : Program → Bool) :
    Env.ErrorFree (c.inside opens) := Leg.inside_all hc.initial hc.env opens

namespace Arena

variable {a : Arena}

/-- Whether the expression is an operand of another one. -/
def IsOperand (a : Arena) (e : ExprId) : Prop := ∃ p, a.Child (.expr p) (.expr e)

/-- Whether a loop iterates over the expression. -/
def IsIterated (a : Arena) (e : ExprId) : Prop :=
  ∃ loop node pattern body, a.stmt loop = .ok node ∧ node.kind = .forIn pattern e body

/-- The variables that a program itself declares have error-free types. -/
theorem ErrorFree.of_declared {P : Program} (h : a.ErrorFree (.stmt P.id)) (hP : a.Holds P) :
    ∀ d ∈ P.shape.declared, d.type.errorFree := by
  intro d hd
  obtain ⟨node, declarations, hnode, hk, x, hx, rfl⟩ := hP.exists_declaration hd
  exact h.declared P.id node declarations (.refl _) hnode hk x hx

/-- The variables that a program declares around itself have error-free types. -/
theorem ErrorFree.of_declares (opens : Program → Bool) {P : Program}
    (h : a.ErrorFree (.stmt P.id)) (hP : a.Holds P) :
    ∀ d ∈ P.declares opens, d.type.errorFree :=
  hP.forall_declares opens fun _ hQ hbelow => (h.below hbelow).of_declared hQ

end Arena

namespace Lexicon

variable {L : Lexicon} {opens : Program → Bool} {env : Env} {a : Arena} {T : Term Mark}
  {c d : Leg}

/-- What is found below a term is found on operands. -/
theorem isOperand_of_mem_inner (hT : a.HoldsTerm T) {f : Finding}
    (hf : f ∈ (L.judge env T).inner) : a.IsOperand f.expr := by
  induction T using Term.induct with
  | node T ih =>
    obtain ⟨x, hx, rfl | hf⟩ := mem_inner.1 hf
    · exact ⟨T.id, hT.child hx⟩
    · exact ih x hx (hT.operand hx) hf

/-- What is found on a program's own expressions is left on one of them or found below. -/
theorem mem_findings_own {f : Finding} : f ∈ (L.own opens c).findings ↔
    ∃ T ∈ c.program.shape.exprSlots,
      f = ⟨T.id, (L.judge ((c.inside opens).declare c.program.shape.declared) T).label.note⟩ ∨
        f ∈ (L.judge ((c.inside opens).declare c.program.shape.declared) T).inner := by
  rw [own, evaluate, List.mem_flatMap]
  simp only [Term.findings_eq_cons, List.mem_cons, judge_id]

/-- The walk reports nothing but warnings, and leaves no operand and nothing that a loop iterates
over unresolved. -/
structure Quiet (L : Lexicon) (opens : Program → Bool) (a : Arena) (c : Leg) : Prop where
  diagnostics : ∀ x ∈ (L.take opens c).diagnostics, x.issue.isWarning
  resolved : ∀ f ∈ (L.take opens c).findings,
    a.IsOperand f.expr ∨ a.IsIterated f.expr → f.note.type.isSome

theorem Quiet.of_leads (h : L.Quiet opens a c) (hd : L.Leads opens c d) : L.Quiet opens a d where
  diagnostics x hx := by
    obtain ⟨e, he, hx⟩ := mem_diagnostics_take.1 hx
    exact h.diagnostics x (mem_diagnostics_take.2 ⟨e, hd.trans he, hx⟩)
  resolved f hf := h.resolved f (hd.findings_subset hf)

namespace Quiet

variable (h : L.Quiet opens a c)

include h

theorem resolved_own {f : Finding} (hf : f ∈ (L.own opens c).findings)
    (hused : a.IsOperand f.expr ∨ a.IsIterated f.expr) : f.note.type.isSome :=
  h.resolved f (mem_findings_take.2 ⟨c, .refl, hf⟩) hused

theorem issues_warn {i : Issue} (hi : i ∈ L.issues opens c) : i.isWarning :=
  h.diagnostics ⟨i, .stmt c.program.id⟩
    (mem_diagnostics_take.2 ⟨c, .refl, .inr ⟨i, hi, rfl⟩⟩)

theorem diagnostics_judge (hT : T ∈ c.program.shape.exprSlots) :
    (L.judge ((c.inside opens).declare c.program.shape.declared) T).diagnostics = [] := by
  refine List.eq_nil_iff_forall_not_mem.2 fun x hx => ?_
  have hloop := concernsLoop_of_mem hx
  have hwarning := h.diagnostics x
    (mem_diagnostics_take.2 ⟨c, .refl, .inl (List.mem_flatMap.2 ⟨T, hT, hx⟩)⟩)
  rw [Issue.concernsLoop_of_isWarning hwarning] at hloop
  cases hloop

end Quiet

/-! ## Along the way -/

/-- The walk is quiet, and what it starts from and the types written in its program are
error-free. -/
structure Untroubled (L : Lexicon) (opens : Program → Bool) (a : Arena) (c : Leg) : Prop where
  holds : a.Holds c.program
  written : a.ErrorFree (.stmt c.program.id)
  quiet : L.Quiet opens a c
  start : c.ErrorFree

namespace Untroubled

/-- A program's own expressions do not fail. -/
theorem own_succeeds (h : L.Untroubled opens a c) (hL : L.ErrorFree) (wf : a.WellFormed)
    (hT : T ∈ c.program.shape.exprSlots) :
    L.Succeeds ((c.inside opens).declare c.program.shape.declared) T ∧
      (L.judge ((c.inside opens).declare c.program.shape.declared) T).label.note.errorFree := by
  have hterm := h.holds.expr hT
  have hsucceeds := judge_errorFree hL
    ((h.start.inside opens).declare (h.written.of_declared h.holds)) wf hterm
    (h.written.below (.of_child (h.holds.child_expr hT) (.refl _)))
    (h.quiet.diagnostics_judge hT) fun f hf => h.quiet.resolved_own
      (mem_findings_own.2 ⟨T, hT, .inr hf⟩) (.inl (isOperand_of_mem_inner hterm hf))
  refine ⟨hsucceeds, hsucceeds.own.resolve_right fun hmember => ?_⟩
  rw [h.holds.isCallee_expr wf hT] at hmember
  cases hmember.2.1

theorem own_errorFree (h : L.Untroubled opens a c) (hL : L.ErrorFree) (wf : a.WellFormed) :
    ∀ f ∈ (L.own opens c).findings, f.note.errorFree := by
  intro f hf
  obtain ⟨T, hT, hf⟩ := mem_findings_own.1 hf
  obtain ⟨hsucceeds, hown⟩ := h.own_succeeds hL wf hT
  rcases hf with rfl | hf
  · exact hown
  · exact hsucceeds.inner f hf

/-- The variable of a loop has an error-free type. -/
theorem loopBound_errorFree (h : L.Untroubled opens a c) (hL : L.ErrorFree) (wf : a.WellFormed)
    {pattern : Pattern} {x : Term Mark} {body : Program}
    (hshape : c.program.shape = .forIn pattern x body) :
    ∀ d ∈ L.loopBound (c.inside opens) pattern x, d.type.errorFree := by
  have hx : x ∈ c.program.shape.exprSlots := by
    rw [hshape]
    exact List.mem_singleton.2 rfl
  have hiterated : a.IsIterated x.id := by
    obtain ⟨parent, ownsScope, hnode⟩ := h.holds.exists_node
    rw [hshape] at hnode
    exact ⟨_, _, pattern, body.id, hnode, rfl⟩
  have henv : (c.inside opens).declare c.program.shape.declared = c.inside opens := by
    rw [hshape]
    exact Env.declare_nil _
  have hfree := (h.own_succeeds hL wf hx).2
  have hsome := h.quiet.resolved_own (mem_findings_own.2 ⟨x, hx, .inl rfl⟩) (.inr hiterated)
  rw [henv] at hfree hsome
  obtain ⟨t, ht⟩ := Option.isSome_iff_exists.1 hsome
  rw [ExprNote.errorFree, ht] at hfree
  have ht : (L.judge (c.inside opens) x).label.type = some t := ht
  have hissue : (Rule.loopElement L.catalog (some t)).2 = none := by
    cases hi : (Rule.loopElement L.catalog (some t)).2 with
    | none => rfl
    | some i =>
      have hmem : i ∈ L.issues opens c := by simp [issues, hshape, ht, hi]
      obtain ⟨t', -, -, rfl⟩ := Rule.issue_loopElement hi
      cases h.quiet.issues_warn hmem
  intro d hd
  rw [loopBound, ht] at hd
  cases pattern with
  | identifier name =>
    obtain rfl := List.mem_singleton.1 hd
    exact Rule.loopElement_errorFree hfree hissue
  | wildcard | tuple => cases hd

/-- The next walk is untroubled if a walk is. -/
theorem leg (h : L.Untroubled opens a c) (hL : L.ErrorFree) (wf : a.WellFormed)
    (hd : d ∈ L.legs opens c) : L.Untroubled opens a d := by
  have hlead : L.Leads opens c d := .single hd
  obtain ⟨hQ, hbelow⟩ := hlead.holds h.holds
  refine ⟨hQ, h.written.below hbelow, h.quiet.of_leads hlead, ?_⟩
  obtain ⟨hinitial, henv⟩ := L.legs_all opens (h.start.inside opens)
    (fun Q hQ => (h.written.below (.single (h.holds.child_stmt hQ))).of_declares opens
      (h.holds.stmt hQ))
    (fun _ _ _ hshape => h.loopBound_errorFree hL wf hshape) hd
  exact ⟨hinitial, henv⟩

theorem of_leads (h : L.Untroubled opens a c) (hL : L.ErrorFree) (wf : a.WellFormed)
    (hd : L.Leads opens c d) : L.Untroubled opens a d := by
  induction hd with
  | refl => exact h
  | tail _ hleg ih => exact ih.leg hL wf hleg

end Untroubled

/-- A walk in error-free surroundings that reports nothing but warnings, and leaves no operand and
nothing that a loop iterates over unresolved, finds no failed expression. -/
theorem take_errorFree (hL : L.ErrorFree) (wf : a.WellFormed) (h : L.Untroubled opens a c) :
    ∀ f ∈ (L.take opens c).findings, f.note.errorFree := by
  intro f hf
  obtain ⟨d, hd, hf⟩ := mem_findings_take.1 hf
  exact (h.of_leads hL wf hd).own_errorFree hL wf f hf

end Lexicon
end ExprTyping
