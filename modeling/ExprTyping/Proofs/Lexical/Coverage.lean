import ExprTyping.Proofs.Arena.Climb
import ExprTyping.Proofs.Arena.Reading
import ExprTyping.Proofs.Lexical.Verdicts
import ExprTyping.Proofs.Lexical.Walk
import Mathlib.Data.List.Basic

/-!
# What a walk covers

A walk through a program finds a note on every expression below it, left on the term that stands
there together with everything found below it (`Lexicon.exists_context`), and a scope for every
statement below it that has a frame (`Lexicon.exists_scope`).
-/

namespace ExprTyping.Lexicon

variable {L : Lexicon} {opens : Program → Bool} {a : Arena} {T x : Term Mark} {env : Env}
  {note : ExprNote} {e : ExprId}

/-! ## One layer -/

/-- An operand is the callee if it has the callee's handle. -/
theorem callee_of_id (wf : a.WellFormed) (hT : a.HoldsTerm T) (hx : x ∈ T.shape.slots)
    (hc : (L.judge env T).shape.callee?.map (·.id) = some (L.judge env x).id) :
    ∃ arguments, T.shape = .call x arguments := by
  rw [judge_shape, Expr.callee?_map, Option.map_map, judge_id] at hc
  obtain ⟨callee, hcallee, hid⟩ := Option.map_eq_some_iff.1 hc
  have hid : callee.id = x.id := (judge_id L env callee).symm.trans hid
  have hnodup := wf.nodup_children _ _ hT.children_eq
  have heq : callee = x := List.inj_on_of_nodup_map hnodup (Expr.mem_slots_of_callee? hcallee) hx
    (by rw [hid])
  subst heq
  cases hk : T.shape with
  | call g arguments =>
    rw [hk] at hcallee
    cases hcallee
    exact ⟨arguments, rfl⟩
  | _ => rw [hk] at hcallee; cases hcallee

theorem callee?_judge (L : Lexicon) (env : Env) (T : Term Mark) :
    (L.judge env T).shape.callee?.map (·.id) = T.shape.callee?.map (·.id) := by
  rw [judge_shape, Expr.callee?_map, Option.map_map]
  congr 1
  funext x
  exact judge_id L env x

/-- An operand that is not called keeps its own note. -/
theorem noteOn_of_not_callee (wf : a.WellFormed) (hT : a.HoldsTerm T) (hx : x ∈ T.shape.slots)
    (h : x.label.isCallee = false) :
    (L.judge env T).noteOn (L.judge env x) = (L.judge env x).label.note := by
  rw [hT.isCallee_operand wf hx, beq_eq_false_iff_ne] at h
  rw [Term.noteOn, callee?_judge, judge_id, if_neg h]

/-- The callee has the note that the call settles, if it settles one. -/
theorem noteOn_callee {arguments : List (Argument (Term Mark))} (hk : T.shape = .call x arguments) :
    (L.judge env T).noteOn (L.judge env x) =
      (L.judge env T).label.callee.getD (L.judge env x).label.note := by
  rw [Term.noteOn, callee?_judge, judge_id, hk]
  exact if_pos rfl

/-- Arguments are not called. -/
theorem not_callee_of_argument (wf : a.WellFormed) (hT : a.HoldsTerm T)
    {arguments : List (Argument (Term Mark))} (hk : T.shape = .call x arguments)
    {y : Argument (Term Mark)} (hy : y ∈ arguments) : y.value.label.isCallee = false := by
  have hslots : T.shape.slots = x :: arguments.map (·.value) := by rw [hk, Expr.slots]
  have hmem : y.value ∈ T.shape.slots := by
    rw [hslots]
    exact List.mem_cons_of_mem _ (List.mem_map.2 ⟨y, hy, rfl⟩)
  have hnodup := wf.nodup_children _ _ hT.children_eq
  rw [hslots, List.map_cons, List.nodup_cons, List.map_map] at hnodup
  rw [hT.isCallee_operand wf hmem, hk, beq_eq_false_iff_ne]
  intro heq
  have hid : x.id = y.value.id := Option.some.inj heq
  exact hnodup.1 (List.mem_map.2 ⟨y, hy, congrArg NodeId.expr hid.symm⟩)

theorem leaves_noteOn (wf : a.WellFormed) (hT : a.HoldsTerm T) (hx : x ∈ T.shape.slots) :
    (L.judge env x).Leaves ((L.judge env T).noteOn (L.judge env x)) := by
  by_cases hc : (L.judge env T).shape.callee?.map (·.id) = some (L.judge env x).id
  · obtain ⟨arguments, hk⟩ := callee_of_id wf hT hx hc
    rw [Term.noteOn, if_pos hc]
    cases hsettled : (L.judge env T).label.callee with
    | none => exact .inl rfl
    | some note =>
      rw [judge_label, hk] at hsettled
      exact .inr (judgeCall_settles ((Mark.callee_close _ _).symm.trans hsettled))
  · rw [Term.noteOn, if_neg hc]
    exact .inl rfl

/-- What is left on an operand is its own note, unless it is a member access that is called. -/
theorem noteOn_eq_or (wf : a.WellFormed) (hT : a.HoldsTerm T) (hx : x ∈ T.shape.slots) :
    (L.judge env T).noteOn (L.judge env x) = (L.judge env x).label.note ∨
      x.shape.isMember ∧ x.label.isCallee := by
  cases hcallee : x.label.isCallee with
  | false => exact .inl (noteOn_of_not_callee wf hT hx hcallee)
  | true =>
    refine (leaves_noteOn wf hT hx).imp_right fun h => ⟨?_, rfl⟩
    obtain ⟨receiver, name, -, -, hshape, -⟩ := h
    rw [← Expr.isMember_map (L.judge env), ← judge_shape, hshape]
    rfl

/-- An expression with a failed operand fails, unless it is an assignment. -/
theorem judge_failed (wf : a.WellFormed) (hT : a.HoldsTerm T) (hx : x ∈ T.shape.slots)
    (hassign : ∀ l op r, T.shape ≠ .assignment l op r)
    (hfailed : ((L.judge env T).noteOn (L.judge env x)).type = some .errorType) :
    (L.judge env T).label.type = some .errorType := by
  by_cases hc : (L.judge env T).shape.callee?.map (·.id) = some (L.judge env x).id
  · obtain ⟨arguments, hk⟩ := callee_of_id wf hT hx hc
    rw [Term.noteOn, if_pos hc, judge_label, hk] at hfailed
    rw [judge_label, hk]
    cases hsettled : (L.verdict env T.label ((Expr.call x arguments).map (L.judge env))).callee with
    | some note =>
      rw [hsettled] at hfailed
      obtain ⟨_, _, _, _, -, -, hfunction⟩ :=
        judgeCall_settles ((Mark.callee_close _ _).symm.trans hsettled)
      rw [Option.getD_some, hfunction] at hfailed
      cases hfailed
    | none =>
      rw [hsettled] at hfailed
      refine Mark.close_failed (judgeCall_callee_failed hfailed ?_
        ((Mark.callee_close _ _).symm.trans hsettled))
      intro receiver name hshape
      rw [judge_shape] at hshape
      cases hx : x.shape with
      | member y other =>
        rw [judge_label, hx] at hfailed ⊢
        exact returnedByProperty?_of_failed hfailed
      | _ => rw [hx] at hshape; cases hshape
  · rw [Term.noteOn, if_neg hc] at hfailed
    have hJ : L.judge env x ∈ (L.judge env T).shape.slots := judge_mem_slots hx
    rw [judge_shape] at hc hJ
    rw [judge_label]
    cases hk : T.shape with
    | call callee arguments =>
      rw [hk] at hc hJ
      rcases List.mem_cons.1 hJ with heq | hmem
      · exact absurd (congrArg (fun J : Term Verdict => some J.id) heq).symm hc
      · obtain ⟨y, hy, hyx⟩ := List.mem_map.1 hmem
        exact Mark.close_failed
          (congrArg Verdict.type (judgeCall_argument_failed hy (hyx ▸ hfailed)))
    | assignment l op r => exact absurd hk (hassign l op r)
    | _ =>
      rw [hk] at hJ
      exact congrArg Verdict.type (verdict_failed hJ hfailed rfl fun l op r h => by cases h)

/-! ## Everything below -/

/-- Typing a term finds the notes on every term below it and reports what is reported there.
Whatever can be said of the note on a term and is handed on to the notes on operands can be said of
the note that is found. -/
theorem exists_typing_term_of {C : Term Mark → ExprNote → Prop}
    (operand : ∀ T x, a.HoldsTerm T → x ∈ T.shape.slots →
      C x ((L.judge env T).noteOn (L.judge env x))) (hT : a.HoldsTerm T)
    (he : a.Below (.expr T.id) (.expr e)) (hC : C T note) :
    ∃ K n, a.HoldsTerm K ∧ K.id = e ∧ C K n ∧
      (L.judge env K).findings n ⊆ (L.judge env T).findings note ∧
      (L.judge env K).diagnostics ⊆ (L.judge env T).diagnostics := by
  induction T using Term.induct generalizing note with
  | node T ih =>
    rcases hT.eq_or_below he with h | ⟨x, hx, he⟩
    · cases h
      exact ⟨T, note, hT, rfl, hC, List.Subset.refl _, List.Subset.refl _⟩
    · obtain ⟨K, n, hK, hid, hn, hfindings, hdiagnostics⟩ :=
        ih x hx (hT.operand hx) he (operand T x hT hx)
      refine ⟨K, n, hK, hid, hn, fun f hf => mem_findings_of_operand hx (hfindings hf),
        fun d hd => ?_⟩
      rw [Term.diagnostics_eq (L.judge env T)]
      exact List.mem_append_left _
        (List.mem_flatMap.2 ⟨_, judge_mem_slots hx, hdiagnostics hd⟩)

theorem exists_context_term_of {C : Term Mark → ExprNote → Prop}
    (operand : ∀ T x, a.HoldsTerm T → x ∈ T.shape.slots →
      C x ((L.judge env T).noteOn (L.judge env x))) (hT : a.HoldsTerm T)
    (he : a.Below (.expr T.id) (.expr e)) (hC : C T note) :
    ∃ K n, a.HoldsTerm K ∧ K.id = e ∧ C K n ∧
      (L.judge env K).findings n ⊆ (L.judge env T).findings note := by
  obtain ⟨K, n, hK, hid, hn, hsub, -⟩ := exists_typing_term_of operand hT he hC
  exact ⟨K, n, hK, hid, hn, hsub⟩

theorem below_of_mem_findings (hT : a.HoldsTerm T) {f : Finding}
    (hf : f ∈ (L.judge env T).findings note) : a.Below (.expr T.id) (.expr f.expr) := by
  induction T using Term.induct generalizing note with
  | node T ih =>
    rcases mem_findings.1 hf with rfl | ⟨x, hx, hf⟩
    · exact .refl _
    · exact .of_child (hT.child hx) (ih x hx (hT.operand hx) hf)

variable (L opens)

/-- A walk finds the notes on every term below the program and reports what is reported there.
Whatever can be said of a term's own note and of the notes on operands can be said of the note that
is found. -/
theorem exists_typing_of {C : Env → Term Mark → ExprNote → Prop}
    (own : ∀ env T, C env T (L.judge env T).label.note)
    (operand : ∀ env T x, a.HoldsTerm T → x ∈ T.shape.slots →
      C env x ((L.judge env T).noteOn (L.judge env x))) {P : Program} (hP : a.Holds P)
    (he : a.Below (.stmt P.id) (.expr e)) (initial : Scope) (env : Env) :
    ∃ K env' n, a.HoldsTerm K ∧ K.id = e ∧ C env' K n ∧
      (L.judge env' K).findings n ⊆ (L.walk opens P initial env).1.findings ∧
      (L.judge env' K).diagnostics ⊆ (L.walk opens P initial env).1.diagnostics := by
  induction P using Program.induct generalizing initial env with
  | node P ih =>
    rcases hP.eq_or_below he with h | ⟨T, hT, he⟩ | ⟨Q, hQ, he⟩
    · cases h
    · obtain ⟨env', hwithin⟩ := exists_within_expr L opens hT initial env
      rw [evaluate_singleton] at hwithin
      obtain ⟨K, n, hK, hid, hn, hfindings, hdiagnostics⟩ :=
        exists_typing_term_of (L := L) (operand env') (hP.expr hT) he (own env' T)
      exact ⟨K, env', n, hK, hid, hn, fun f hf => hwithin.findings (hfindings hf),
        fun d hd => hwithin.diagnostics (hdiagnostics hd)⟩
    · obtain ⟨initial', env', hwithin⟩ := exists_within_stmt L opens hQ initial env
      obtain ⟨K, env'', n, hK, hid, hn, hfindings, hdiagnostics⟩ :=
        ih Q hQ (hP.stmt hQ) he initial' env'
      exact ⟨K, env'', n, hK, hid, hn, fun f hf => hwithin.findings (hfindings hf),
        fun d hd => hwithin.diagnostics (hdiagnostics hd)⟩

theorem exists_context_of {C : Env → Term Mark → ExprNote → Prop}
    (own : ∀ env T, C env T (L.judge env T).label.note)
    (operand : ∀ env T x, a.HoldsTerm T → x ∈ T.shape.slots →
      C env x ((L.judge env T).noteOn (L.judge env x))) {P : Program} (hP : a.Holds P)
    (he : a.Below (.stmt P.id) (.expr e)) (initial : Scope) (env : Env) :
    ∃ K env' n, a.HoldsTerm K ∧ K.id = e ∧ C env' K n ∧
      (L.judge env' K).findings n ⊆ (L.walk opens P initial env).1.findings := by
  obtain ⟨K, env', n, hK, hid, hn, hsub, -⟩ :=
    exists_typing_of L opens own operand hP he initial env
  exact ⟨K, env', n, hK, hid, hn, hsub⟩

theorem exists_context (wf : a.WellFormed) {P : Program} (hP : a.Holds P)
    (he : a.Below (.stmt P.id) (.expr e)) (initial : Scope) (env : Env) :
    ∃ K env' n, a.HoldsTerm K ∧ K.id = e ∧ (L.judge env' K).Leaves n ∧
      (L.judge env' K).findings n ⊆ (L.walk opens P initial env).1.findings :=
  exists_context_of L opens (C := fun env T note => (L.judge env T).Leaves note)
    (fun _ _ => .inl rfl) (fun _ _ _ hT hx => leaves_noteOn wf hT hx) hP he initial env

/-- A walk finds a scope for every statement below the program that has a frame. -/
theorem exists_scope (hopens : ∀ Q, a.Holds Q → opens Q = a.owns Q.id) {P : Program}
    (hP : a.Holds P) {s : StmtId} (hs : a.Below (.stmt P.id) (.stmt s)) (howns : a.owns s = true)
    (initial : Scope) (env : Env) :
    ∃ scope, (s, scope) ∈ (L.walk opens P initial env).1.scopes := by
  induction P using Program.induct generalizing initial env with
  | node P ih =>
    rcases hP.eq_or_below hs with h | ⟨T, hT, hs⟩ | ⟨Q, hQ, hs⟩
    · cases h
      rw [walk_eq, if_pos ((hopens P hP).trans howns)]
      exact ⟨_, List.mem_append_right _ (List.mem_singleton.2 rfl)⟩
    · obtain ⟨x, hx⟩ := hs.of_expr
      cases hx
    · obtain ⟨initial', env', hwithin⟩ := exists_within_stmt L opens hQ initial env
      obtain ⟨scope, hscope⟩ := ih Q hQ (hP.stmt hQ) hs initial' env'
      exact ⟨scope, hwithin.scopes hscope⟩

end ExprTyping.Lexicon
