import ExprTyping.Proofs.Arena.Reading
import ExprTyping.Proofs.Lexical.Coverage

/-!
# What typing an expression looks at

The verdict on an expression depends on the types of its operands, and for a call also on the form
and the verdict of what is called (`Lexicon.verdict_congr_operands`). Whether the expression is
called itself makes a difference for a member access only (`Lexicon.verdict_congr_mark`).

In an arena, typing the term at an expression is typing the terms at its operands first
(`Arena.WellFormed.judge_term`).
-/

namespace ExprTyping

/-! ## Operands that agree -/

/-- Only the types of the operands count. -/
theorem unlessFailed_congr (xs ys : List Operand) (h : xs.map (·.type) = ys.map (·.type))
    (v : Verdict) : unlessFailed xs v = unlessFailed ys v := by
  have hany : ∀ zs : List Operand,
      zs.any Operand.isFailed = (zs.map (·.type)).any (· == some .errorType) := by
    intro zs
    rw [List.any_map]
    rfl
  rw [unlessFailed, unlessFailed, hany, hany, h]

namespace Lexicon

variable (L : Lexicon) (env : Env) {α : Type} {F F' : α → Term Verdict} {k : Expr α}

/-- A call looks at the labels of its arguments and at their types. -/
theorem judgeCall_congr_arguments (callee : Term Verdict) (arguments : List (Argument α))
    (h : ∀ a ∈ arguments, (F' a.value).label.type = (F a.value).label.type) :
    L.judgeCall callee (arguments.map fun a => ⟨a.label, F' a.value⟩) =
      L.judgeCall callee (arguments.map fun a => ⟨a.label, F a.value⟩) := by
  have hfailed : (arguments.map fun a => (⟨a.label, F' a.value⟩ : Argument (Term Verdict))).any
      (·.value.operand.isFailed) =
      (arguments.map fun a => (⟨a.label, F a.value⟩ : Argument (Term Verdict))).any
        (·.value.operand.isFailed) := by
    rw [List.any_map, List.any_map, Bool.eq_iff_iff, List.any_eq_true, List.any_eq_true]
    refine exists_congr fun a => and_congr_right fun ha => ?_
    simp only [Function.comp_apply, Operand.isFailed, Term.operand, h a ha]
  have hlabels : argumentLabels (arguments.map fun a => (⟨a.label, F' a.value⟩ : Argument _)) =
      argumentLabels (arguments.map fun a => (⟨a.label, F a.value⟩ : Argument _)) := by
    simp only [argumentLabels, List.map_map, Function.comp_def]
  simp only [judgeCall, hfailed, hlabels]

/-- A call looks at its callee's verdict, at its form and at the type of its receiver. -/
theorem judgeCall_congr_callee {J J' : Term Verdict} {k : Expr α} (hshape : J.shape = k.map F)
    (hshape' : J'.shape = k.map F') (hlabel : J'.label = J.label)
    (h : ∀ x ∈ k.slots, (F' x).label.type = (F x).label.type)
    (arguments : List (Argument (Term Verdict))) :
    L.judgeCall J' arguments = L.judgeCall J arguments := by
  have hfailed := unlessFailed_congr [J'.operand] [J.operand] (by simp [Term.operand, hlabel])
  rw [judgeCall, judgeCall, hshape, hshape']
  cases k with
  | member x name => simp only [Expr.map, h x (List.mem_singleton.2 rfl), hlabel]
  | identifier name => simp only [Expr.map, hlabel]
  | _ => simp only [Expr.map, hfailed]

/-- A call of anything but a member access or the name of a type has no type. -/
theorem judgeCall_of_plain {J : Term Verdict} (hmember : J.shape.isMember = false)
    (htype : J.shape.isIdentifier = true → ∀ subject, J.label.type ≠ some (.metatype subject))
    (arguments : List (Argument (Term Verdict))) :
    L.judgeCall J arguments = if arguments.any (·.value.operand.isFailed) then .failed
      else unlessFailed [J.operand] (.typed none) := by
  rw [judgeCall]
  cases hk : J.shape with
  | member x name =>
    rw [hk] at hmember
    cases hmember
  | identifier name =>
    rw [hk] at htype
    have hplain := htype rfl
    have hcall : ∀ labels, Rule.nameCall L.catalog J.label.type labels =
        unlessFailed [J.operand] (.typed none) := by
      intro labels
      unfold Rule.nameCall
      split
      · exact absurd ‹_› (hplain _)
      · rw [unlessFailed_failed (x := J.operand) (List.mem_singleton.2 rfl) ‹_›]
      · rename_i hfailed
        rw [unlessFailed, if_neg]
        simpa [Operand.isFailed, Term.operand] using hfailed
    simp only [hcall]
  | _ => rfl

/-- The verdict on an expression depends on the types of its operands and on the rule for its
callee. -/
theorem verdict_congr_operands (mark : Mark)
    (htype : ∀ x ∈ k.slots, (F' x).label.type = (F x).label.type)
    (hcalled : ∀ x, k.callee? = some x → ∀ arguments,
      L.judgeCall (F' x) arguments = L.judgeCall (F x) arguments) :
    L.verdict env mark (k.map F') = L.verdict env mark (k.map F) := by
  cases k with
  | call f arguments =>
    have harguments := L.judgeCall_congr_arguments (F' f) arguments
      fun a ha => htype a.value (List.mem_cons_of_mem _ (List.mem_map.2 ⟨a, ha, rfl⟩))
    simp only [Expr.map, verdict, harguments, hcalled f rfl]
  | arrayLiteral items =>
    have htypes : items.map (fun x => (F' x).label.type) = items.map fun x => (F x).label.type :=
      List.map_congr_left htype
    simp only [Expr.map, verdict, List.map_map, Function.comp_def, htypes]
    exact unlessFailed_congr _ _ (by simpa [Term.operand, Function.comp_def] using htypes) _
  | dictionaryLiteral pairs =>
    have hpair : ∀ kv ∈ pairs, (F' kv.1).label.type = (F kv.1).label.type ∧
        (F' kv.2).label.type = (F kv.2).label.type := fun kv hkv =>
      ⟨htype kv.1 (List.mem_flatMap.2 ⟨kv, hkv, by simp⟩),
        htype kv.2 (List.mem_flatMap.2 ⟨kv, hkv, by simp⟩)⟩
    have htypes : pairs.map (fun kv => ((F' kv.1).label.type, (F' kv.2).label.type)) =
        pairs.map fun kv => ((F kv.1).label.type, (F kv.2).label.type) :=
      List.map_congr_left fun kv hkv => Prod.ext (hpair kv hkv).1 (hpair kv hkv).2
    have hoperands : (pairs.flatMap fun kv => [(F' kv.1).operand, (F' kv.2).operand]).map (·.type) =
        (pairs.flatMap fun kv => [(F kv.1).operand, (F kv.2).operand]).map (·.type) := by
      simp only [List.map_flatMap, List.map_cons, List.map_nil, Term.operand]
      exact List.flatMap_congr fun kv hkv => by rw [(hpair kv hkv).1, (hpair kv hkv).2]
    simp only [Expr.map, verdict, List.map_map, Function.comp_def, List.flatMap_map, htypes]
    exact unlessFailed_congr _ _ hoperands _
  | _ =>
    simp_all [Expr.map, verdict, Expr.slots, unlessFailed, Operand.isFailed, Term.operand,
      judgeMember]

/-- Whether it is called makes a difference for a member access only. -/
theorem verdict_congr_mark {mark mark' : Mark} {k : Expr (Term Verdict)}
    (hcloses : mark'.closesChain = mark.closesChain)
    (hcalled : mark'.isCallee = mark.isCallee ∨ k.isMember = false) :
    L.verdict env mark' k = L.verdict env mark k := by
  have hclose : ∀ v, mark'.close v = mark.close v := by
    intro v
    rw [Mark.close, Mark.close, hcloses]
  cases k with
  | member x name => simp only [verdict, hclose, hcalled.resolve_right (by simp [Expr.isMember])]
  | _ => simp only [verdict, hclose]

end Lexicon

/-! ## Terms of an arena -/

theorem Arena.own_mem_findings (a : Arena) (L : Lexicon) (env : Env) (x : ExprId)
    (note : ExprNote) : ⟨x, note⟩ ∈ (L.judge env (a.term x)).findings note := by
  have hown : ⟨(a.term x).id, note⟩ ∈ (L.judge env (a.term x)).findings note :=
    Lexicon.own_mem_findings
  rwa [a.term_id] at hown

/-- An expression below another one has its own note there, unless it is a member access that is
called. -/
theorem Arena.WellFormed.own_mem_findings_below {a : Arena} (wf : a.WellFormed) (L : Lexicon)
    (env : Env) {x e : ExprId} (hx : a.contains (.expr x)) (he : a.Below (.expr x) (.expr e))
    (hmember : a.isCallee e = .ok true → ∀ node, a.expr e = .ok node →
      node.kind.isMember = false) :
    ⟨e, (L.judge env (a.term e)).label.note⟩ ∈
      (L.judge env (a.term x)).findings (L.judge env (a.term x)).label.note := by
  obtain ⟨K, note, hK, rfl, hnote, hsub⟩ := Lexicon.exists_context_term_of (L := L)
    (C := fun K note => note = (L.judge env K).label.note ∨ K.shape.isMember ∧ K.label.isCallee)
    (fun _ _ hT hy => Lexicon.noteOn_eq_or wf hT hy) (wf.holds_term hx) (a.term_id x ▸ he)
    (.inl rfl)
  rcases hnote with rfl | ⟨hshape, hcallee⟩
  · rw [← wf.eq_term hK]
    exact hsub Lexicon.own_mem_findings
  · obtain ⟨_, hnode⟩ := hK.exists_node
    have hfree := hmember (hK.isCallee_eq.trans (congrArg Except.ok hcallee)) _ hnode
    rw [Expr.isMember_map] at hfree
    cases hfree.symm.trans hshape

namespace Arena.WellFormed

variable {a : Arena} {x : ExprId} {node : ExprNode} (wf : a.WellFormed) (L : Lexicon) (env : Env)
  (hnode : a.expr x = .ok node)
include wf hnode

/-- Typing a term is typing its operands first. -/
theorem judge_term :
    L.judge env (a.term x) =
      ⟨x, L.verdict env (a.mark x) (node.kind.map fun y => L.judge env (a.term y)),
        node.kind.map fun y => L.judge env (a.term y)⟩ := by
  rw [wf.term_eq hnode, Lexicon.judge_eq]
  simp only [Expr.map_map]

/-- The note on an operand is its own, unless the expression calls it and settles another one. -/
theorem noteOn_term (y : ExprId) :
    (L.judge env (a.term x)).noteOn (L.judge env (a.term y)) =
      if node.kind.callee? = some y then
        (L.judge env (a.term x)).label.callee.getD (L.judge env (a.term y)).label.note
      else (L.judge env (a.term y)).label.note := by
  have hcallee : (L.judge env (a.term x)).shape.callee?.map (·.id) = node.kind.callee? := by
    rw [wf.judge_term L env hnode, Expr.callee?_map, Option.map_map]
    simp [Function.comp_def, term_id]
  rw [Term.noteOn, hcallee, Lexicon.judge_id, term_id]

theorem findings_term (note : ExprNote) :
    (L.judge env (a.term x)).findings note =
      ⟨x, note⟩ :: node.kind.slots.flatMap fun y => (L.judge env (a.term y)).findings
        ((L.judge env (a.term x)).noteOn (L.judge env (a.term y))) := by
  rw [Term.findings_eq, Lexicon.judge_id, term_id,
    congrArg Term.shape (wf.judge_term L env hnode), Expr.slots_map, List.flatMap_map]

/-- What is found on an operand is found on the expression. -/
theorem findings_operand {y : ExprId} (hy : y ∈ node.kind.slots) (note : ExprNote) :
    (L.judge env (a.term y)).findings
        ((L.judge env (a.term x)).noteOn (L.judge env (a.term y))) ⊆
      (L.judge env (a.term x)).findings note := by
  rw [wf.findings_term L env hnode note]
  exact fun f hf => List.mem_cons_of_mem _ (List.mem_flatMap.2 ⟨y, hy, hf⟩)

/-- An operand that is not called is left its own note. -/
theorem note_operand {y : ExprId} {note : ExprNote} {notes : ExprId → ExprNote}
    (hy : y ∈ node.kind.slots) (hcallee : node.kind.callee? ≠ some y)
    (found : ∀ f ∈ (L.judge env (a.term x)).findings note, notes f.expr = f.note) :
    notes y = (L.judge env (a.term y)).label.note := by
  rw [found _ (wf.findings_operand L env hnode hy note (a.own_mem_findings L env y _)),
    wf.noteOn_term L env hnode, if_neg hcallee]

theorem diagnostics_term :
    (L.judge env (a.term x)).diagnostics =
      (node.kind.slots.flatMap fun y => (L.judge env (a.term y)).diagnostics) ++
        ((L.judge env (a.term x)).label.issue.map (⟨·, .expr x⟩)).toList := by
  rw [Term.diagnostics_eq, Lexicon.judge_id, term_id,
    congrArg Term.shape (wf.judge_term L env hnode), Expr.slots_map, List.flatMap_map]

end Arena.WellFormed
end ExprTyping
