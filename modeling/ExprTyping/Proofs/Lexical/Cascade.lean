import ExprTyping.Proofs.Arena.Order
import ExprTyping.Proofs.Lexical.Legs
import ExprTyping.Proofs.Lexical.Reports
import Mathlib.Data.List.Flatten

/-!
# Reports do not cascade

An error is reported where it begins. The expression that is reported has failed, and none of its
operands has, except perhaps a member access that it calls (`Lexicon.exists_reporter`,
`Lexicon.operand_failed_of_reported`): this one stays silent so that the call can report.

Reports come in the order of the visit (`Lexicon.diagnostics_sublist`): as this lists no node twice,
neither do reports of one sort.
-/

namespace ExprTyping

/-- Whether this is the handle of an expression. -/
def NodeId.isExpr : NodeId → Bool
  | .expr _ => true
  | .stmt _ => false

/-! ## Verdicts -/

namespace Lexicon

variable {L : Lexicon} {env : Env}

/-- A member access that is called reports nothing. -/
theorem issue_member_callee {mark : Mark} (hmark : mark.isCallee = true) (receiver : Term Verdict)
    (name : String) : (L.verdict env mark (.member receiver name)).issue = none := by
  have hproperty : ∀ t, (Rule.property L.catalog t name true).issue = none := by
    intro t
    unfold Rule.property
    repeat' split
    all_goals first | rfl | contradiction
  rw [verdict, Mark.issue_close, hmark, judgeMember]
  split_ifs
  · rfl
  · rfl
  · split
    · rfl
    · exact hproperty _

theorem judgeCall_failed_of_not_member {callee : Term Verdict}
    {arguments : List (Argument (Term Verdict))} (hfailed : callee.label.type = some .errorType)
    (hmember : callee.shape.isMember = false) : L.judgeCall callee arguments = .failed := by
  unfold judgeCall
  split_ifs
  · rfl
  · split
    · rename_i hk
      rw [hk] at hmember
      cases hmember
    · rw [hfailed]
      rfl
    · exact unlessFailed_failed (List.mem_singleton.2 rfl) hfailed _

/-- An expression with a failed operand reports nothing, unless the operand is a member access that
is called. -/
theorem callee_of_reported {mark : Mark} {k : Expr (Term Verdict)} {x : Term Verdict} {i : Issue}
    (hissue : (L.verdict env mark k).issue = some i) (hx : x ∈ k.slots)
    (hfailed : x.label.type = some .errorType) :
    ∃ arguments, k = .call x arguments ∧ x.shape.isMember := by
  by_cases hcall : k.callee? = none
  · by_cases hassign : ∃ l op r, k = .assignment l op r
    · obtain ⟨l, op, r, rfl⟩ := hassign
      cases hissue
    · rw [verdict_failed hx hfailed hcall fun l op r hk => hassign ⟨l, op, r, hk⟩] at hissue
      cases hissue
  · cases k with
    | call callee arguments =>
      rw [verdict, Mark.issue_close] at hissue
      rcases List.mem_cons.1 hx with rfl | hx
      · refine ⟨arguments, rfl, ?_⟩
        by_contra hmember
        rw [judgeCall_failed_of_not_member hfailed (by simpa using hmember)] at hissue
        cases hissue
      · obtain ⟨y, hy, rfl⟩ := List.mem_map.1 hx
        rw [judgeCall_argument_failed hy hfailed] at hissue
        cases hissue
    | _ => exact absurd rfl hcall

/-! ## Where reports come from -/

variable {opens : Program → Bool} {a : Arena} {T x : Term Mark} {note : ExprNote}
  {d : Diagnostic} {c : Leg}

/-- What is reported about a term is reported about a term below it that failed, and the notes there
are found. -/
theorem exists_reporter_term (wf : a.WellFormed) (hT : a.HoldsTerm T)
    (hnote : note = (L.judge env T).label.note ∨ T.shape.isMember ∧ T.label.isCallee)
    (hd : d ∈ (L.judge env T).diagnostics) :
    ∃ K, a.HoldsTerm K ∧ d.node = .expr K.id ∧ (L.judge env K).label.issue = some d.issue ∧
      (L.judge env K).findings (L.judge env K).label.note ⊆ (L.judge env T).findings note := by
  induction T using Term.induct generalizing note with
  | node T ih =>
    rcases mem_diagnostics.1 hd with ⟨x, hx, hd⟩ | ⟨hissue, hnode⟩
    · obtain ⟨K, hK, hnode, hissue, hsub⟩ := ih x hx (hT.operand hx) (noteOn_eq_or wf hT hx) hd
      exact ⟨K, hK, hnode, hissue, fun f hf => mem_findings_of_operand hx (hsub hf)⟩
    · refine ⟨T, hT, hnode, hissue, ?_⟩
      rcases hnote with rfl | ⟨hmember, hcallee⟩
      · exact List.Subset.refl _
      · rw [judge_label] at hissue
        cases hk : T.shape with
        | member receiver name =>
          rw [hk] at hissue
          have hnone : (L.verdict env T.label (.member (L.judge env receiver) name)).issue =
              none := issue_member_callee hcallee _ name
          exact absurd (hissue.symm.trans hnone) (by simp)
        | _ => rw [hk] at hmember; cases hmember

/-- A walk reports about expressions that failed, whose notes it finds, and about loops. -/
theorem exists_reporter (wf : a.WellFormed) (hc : a.Holds c.program)
    (hd : d ∈ (L.take opens c).diagnostics) :
    (∃ K env, a.HoldsTerm K ∧ d.node = .expr K.id ∧ (L.judge env K).label.issue = some d.issue ∧
        (L.judge env K).findings (L.judge env K).label.note ⊆ (L.take opens c).findings) ∨
      ∃ c', L.Leads opens c c' ∧ ∃ i ∈ L.issues opens c', d = ⟨i, .stmt c'.program.id⟩ := by
  obtain ⟨c', hlead, hd | hd⟩ := mem_diagnostics_take.1 hd
  · left
    obtain ⟨T, hT, hd⟩ := List.mem_flatMap.1 hd
    obtain ⟨K, hK, hnode, hissue, hsub⟩ :=
      exists_reporter_term wf ((hlead.holds hc).1.expr hT) (.inl rfl) hd
    refine ⟨K, _, hK, hnode, hissue, fun f hf => ?_⟩
    exact mem_findings_take.2 ⟨c', hlead, List.mem_flatMap.2 ⟨T, hT, hsub hf⟩⟩
  · exact .inr ⟨c', hlead, hd⟩

/-- An expression about which something is reported has failed. -/
theorem failed_of_reported {i : Issue} (hissue : (L.judge env T).label.issue = some i) :
    (L.judge env T).label = .reported i ∧ i.concernsLoop = false := by
  rw [judge_label] at hissue ⊢
  exact reports_verdict i hissue

/-- A failed operand of an expression about which something is reported is a member access that the
expression calls. -/
theorem operand_failed_of_reported {i : Issue} (wf : a.WellFormed) (hT : a.HoldsTerm T)
    (hissue : (L.judge env T).label.issue = some i) (hx : x ∈ T.shape.slots)
    (hfailed : ((L.judge env T).noteOn (L.judge env x)).type = some .errorType) :
    (∃ arguments, T.shape = .call x arguments) ∧ x.shape.isMember := by
  have hnote : (L.judge env T).noteOn (L.judge env x) = (L.judge env x).label.note := by
    rw [Term.noteOn, (failed_of_reported hissue).1]
    exact ite_self _
  rw [hnote] at hfailed
  have hJ : L.judge env x ∈ (T.shape.map (L.judge env)).slots := by
    rw [Expr.slots_map]
    exact List.mem_map.2 ⟨x, hx, rfl⟩
  rw [judge_label] at hissue
  obtain ⟨arguments, hk, hmember⟩ := callee_of_reported hissue hJ hfailed
  rw [judge_shape, Expr.isMember_map] at hmember
  have hc : (L.judge env T).shape.callee?.map (·.id) = some (L.judge env x).id := by
    rw [judge_shape, hk]
    rfl
  exact ⟨callee_of_id wf hT hx hc, hmember⟩

/-- What is wrong with a loop is what it iterates over, its pattern, or both. -/
theorem exists_issues (L : Lexicon) (opens : Program → Bool) (c : Leg) :
    ∃ (t : Option Ty) (pattern : Option String), L.issues opens c =
      (t.map Issue.notIterable).toList ++ (pattern.map Issue.unsupportedLoopPattern).toList := by
  unfold issues
  split
  · rename_i pattern x body hshape
    have hpattern : ∃ text : Option String,
        pattern.issue? = text.map Issue.unsupportedLoopPattern := by
      cases pattern with
      | tuple items => exact ⟨some (Pattern.tuple items).render, rfl⟩
      | identifier | wildcard => exact ⟨none, rfl⟩
    obtain ⟨text, htext⟩ := hpattern
    rw [htext]
    cases hi : (Rule.loopElement L.catalog (L.judge (c.inside opens) x).label.type).2 with
    | none => exact ⟨none, text, rfl⟩
    | some i =>
      obtain ⟨t, -, -, rfl⟩ := Rule.issue_loopElement hi
      exact ⟨some t, text, rfl⟩
  · exact ⟨none, none, rfl⟩

theorem concernsLoop_of_mem_issues {i : Issue} (hi : i ∈ L.issues opens c) :
    i.concernsLoop = true := by
  obtain ⟨t, pattern, heq⟩ := L.exists_issues opens c
  rw [heq] at hi
  cases t <;> cases pattern <;> simp at hi
  · subst hi
    rfl
  · subst hi
    rfl
  · rcases hi with rfl | rfl <;> rfl

/-- A loop over something that failed or is unresolved is not reported for it. -/
theorem iterated_of_notIterable {t : Ty} (hi : .notIterable t ∈ L.issues opens c) :
    ∃ pattern x body, c.program.shape = .forIn pattern x body ∧ t ≠ .errorType ∧
      ∃ f ∈ (L.take opens c).findings, f.expr = x.id ∧ f.note.type = some t := by
  unfold issues at hi
  split at hi
  · rename_i pattern x body hshape
    rcases List.mem_append.1 hi with hi | hi
    · obtain ⟨t', htype, hne, heq⟩ := Rule.issue_loopElement (Option.mem_toList.1 hi)
      cases heq
      refine ⟨pattern, x, body, hshape, hne, ⟨x.id, (L.judge (c.inside opens) x).label.note⟩, ?_,
        rfl, htype⟩
      rw [(L.take_parts opens c).1, own, hshape]
      refine List.mem_append_left _ (List.mem_flatMap.2 ⟨x, List.mem_singleton.2 rfl, ?_⟩)
      rw [Stmt.declared, Env.declare_nil]
      · exact own_mem_findings
      · exact fun _ h => by cases h
    · cases pattern <;> simp [Pattern.issue?] at hi
  · cases hi

/-! ## The order of reports -/

/-- What is reported about a term, as far as a condition selects it, comes in the order of the
visit. -/
theorem diagnostics_judge_sublist (L : Lexicon) (env : Env) (select : Issue → Bool)
    (T : Term Mark) :
    (((L.judge env T).diagnostics.filter fun d => select d.issue).map (·.node)).Sublist
      (T.postorder.map .expr) := by
  induction T using Term.induct with
  | node T ih =>
    rw [diagnostics_judge, Term.postorder_eq, List.filter_append, List.map_append,
      List.filter_flatMap, List.map_flatMap, List.map_append, List.map_flatMap]
    refine .append (.flatMap_right _ ih) ?_
    cases (L.judge env T).label.issue with
    | none => exact List.nil_sublist _
    | some i => exact List.filter_sublist.map Diagnostic.node

/-- What a walk reports, as far as a condition selects it, comes in the order of the visit, if the
condition selects at most one report about each statement. -/
theorem diagnostics_sublist (L : Lexicon) (opens : Program → Bool) {select : Issue → Bool}
    (hselect : ∀ c, ((L.issues opens c).filter select).length ≤ 1) (c : Leg) :
    (((L.take opens c).diagnostics.filter fun d => select d.issue).map (·.node)).Sublist
      c.program.visitOrder := by
  induction c using L.leg_induct opens with
  | step c ih =>
    have hexprs : (((L.own opens c).diagnostics.filter fun d => select d.issue).map
        (·.node)).Sublist (c.program.shape.exprSlots.flatMap fun T => T.postorder.map .expr) := by
      rw [own, evaluate, List.filter_flatMap, List.map_flatMap]
      exact .flatMap_right _ fun T _ => L.diagnostics_judge_sublist _ select T
    have hissues : ((((L.issues opens c).map (⟨·, .stmt c.program.id⟩)).filter
        fun d => select d.issue).map Diagnostic.node).Sublist [.stmt c.program.id] := by
      have hreplicate : (((L.issues opens c).map (⟨·, .stmt c.program.id⟩)).filter
          fun d => select d.issue).map Diagnostic.node =
            List.replicate ((L.issues opens c).filter select).length (.stmt c.program.id) := by
        rw [List.filter_map, List.map_map]
        exact List.map_const' ..
      rw [hreplicate]
      exact (List.replicate_sublist_replicate _).2 (hselect c)
    have hlegs : ((((L.legs opens c).flatMap fun d => (L.take opens d).diagnostics).filter
        fun d => select d.issue).map (·.node)).Sublist
          (c.program.shape.stmtSlots.flatMap Program.visitOrder) := by
      rw [← L.program_legs opens c, List.flatMap_map, List.filter_flatMap, List.map_flatMap]
      exact .flatMap_right _ ih
    rw [(L.take_parts opens c).2, Program.visitOrder_eq, List.append_assoc, List.filter_append,
      List.filter_append, List.map_append, List.map_append]
    exact hexprs.append (hissues.append hlegs)

/-- Reports about expressions come in the order of the visit. -/
theorem expr_diagnostics_sublist (wf : a.WellFormed) (hc : a.Holds c.program) :
    (((L.take opens c).diagnostics.filter (·.node.isExpr)).map (·.node)).Sublist
      c.program.visitOrder := by
  have hselect : ∀ c, ((L.issues opens c).filter fun i => !i.concernsLoop).length ≤ 1 := by
    intro c
    have hnil : ((L.issues opens c).filter fun i => !i.concernsLoop) = [] := by
      refine List.filter_eq_nil_iff.2 fun i hi => ?_
      simp [concernsLoop_of_mem_issues hi]
    simp [hnil]
  have hfilter : (L.take opens c).diagnostics.filter (·.node.isExpr) =
      (L.take opens c).diagnostics.filter fun d => !d.issue.concernsLoop := by
    refine List.filter_congr fun d hd => ?_
    rcases exists_reporter wf hc hd with ⟨K, env, -, hnode, hissue, -⟩ | ⟨c', -, i, hi, rfl⟩
    · rw [hnode, (failed_of_reported hissue).2]
      rfl
    · rw [concernsLoop_of_mem_issues hi]
      rfl
  rw [hfilter]
  exact L.diagnostics_sublist opens hselect c

/-- Nothing is reported twice about one node, among what a condition selects, if the condition
selects at most one report about each statement. -/
theorem countP_diagnostics_le (wf : a.WellFormed) (hc : a.Holds c.program) {select : Issue → Bool}
    (hselect : ∀ c, ((L.issues opens c).filter select).length ≤ 1) (n : NodeId) :
    (L.take opens c).diagnostics.countP (fun d => decide (d.node = n) && select d.issue) ≤ 1 := by
  have hnodup := (hc.nodup_visitOrder wf).sublist (L.diagnostics_sublist opens hselect c)
  have hcount := List.nodup_iff_count_le_one.1 hnodup n
  rwa [List.count, List.countP_map, List.countP_filter] at hcount

theorem notIterable_filter_le (c : Leg) :
    ((L.issues opens c).filter Issue.isNotIterable).length ≤ 1 := by
  obtain ⟨t, pattern, heq⟩ := L.exists_issues opens c
  rw [heq]
  cases t <;> cases pattern <;> first | exact Nat.zero_le 1 | exact Nat.le_refl 1

theorem isWarning_filter_le (c : Leg) :
    ((L.issues opens c).filter Issue.isWarning).length ≤ 1 := by
  obtain ⟨t, pattern, heq⟩ := L.exists_issues opens c
  rw [heq]
  cases t <;> cases pattern <;> first | exact Nat.zero_le 1 | exact Nat.le_refl 1

end Lexicon
end ExprTyping
