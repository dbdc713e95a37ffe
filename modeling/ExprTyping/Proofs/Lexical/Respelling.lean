import ExprTyping.Proofs.Arena.Respelling
import ExprTyping.Proofs.Lexical.Calls
import ExprTyping.Proofs.Lexical.Cascade

/-!
# Typing a call of a type and of its init

A call of the name of a type and a call of the type's `init` look for the same constructor
(`Rule.initCall_eq`). Only the second one has a callee to settle. So in two arenas that differ in
the spelling of such a call (`Arena.Respells`), typing gives all counterparts the same notes and
reports the same about them (`Arena.Respells.term_compares`, `Arena.Respells.walk_compares`).

That the name means a type is presumed of the note that is found on it. What is looked up besides, a
property or a static method with the name `init`, is never asked for.
-/

namespace ExprTyping

/-! ## The rules -/

/-- The type is in the catalog and has a constructor with these labels itself. -/
def Catalog.Constructs (catalog : Catalog) (subject : Ty) (labels : List String) : Prop :=
  ∃ known, catalog.typeOf? subject = some known ∧ ∃ c ∈ known.constructors, c.labels = labels

/-- The issue says why the type has no constructor with these labels. -/
inductive Catalog.Lacks (catalog : Catalog) (subject : Ty) (labels : List String) : Issue → Prop
  /-- The type is not in the catalog. -/
  | type (h : catalog.typeOf? subject = none) : Lacks catalog subject labels (.unknownType subject)
  /-- The type is there, but none of its own constructors has these labels. -/
  | constructor {known : KnownType} (h : catalog.typeOf? subject = some known)
      (hnone : ∀ c ∈ known.constructors, c.labels ≠ labels) : Lacks catalog subject labels
        (.noMatchingConstructor known.typeName (selector Name.initMember labels))

namespace Rule

variable {catalog : Catalog} {subject : Ty} {labels : List String} {i : Issue}

/-- The two calls are judged alike, except for the callee. -/
theorem initCall_eq (catalog : Catalog) (subject : Ty) (callee : ExprNote) (labels : List String) :
    (initCall catalog subject callee labels).note = (construction catalog subject labels).note ∧
      (initCall catalog subject callee labels).issue =
        (construction catalog subject labels).issue := by
  rw [initCall, construction]
  split <;> exact ⟨rfl, rfl⟩

theorem constructs_iff :
    catalog.Constructs subject labels ↔ ∃ c, constructor? catalog subject labels = .ok c := by
  constructor
  · rintro ⟨known, hknown, c, hc, hlabels⟩
    have hfound : (Catalog.constructor? labels known).isSome = true :=
      List.find?_isSome.2 ⟨c, hc, beq_iff_eq.2 hlabels⟩
    obtain ⟨c', hc'⟩ := Option.isSome_iff_exists.1 hfound
    refine ⟨c', ?_⟩
    simp only [constructor?, hknown, hc']
  · rintro ⟨c, hc⟩
    obtain ⟨known, hknown, hfind⟩ := constructor?_eq_ok hc
    have hlabels := List.find?_some hfind
    exact ⟨known, hknown, c, List.mem_of_find?_eq_some hfind, beq_iff_eq.1 hlabels⟩

theorem lacks_iff :
    catalog.Lacks subject labels i ↔ constructor? catalog subject labels = .error i := by
  have none_iff : ∀ known : KnownType, Catalog.constructor? labels known = none ↔
      ∀ c ∈ known.constructors, c.labels ≠ labels := fun known => by
    simp [Catalog.constructor?, KnownType.constructor?]
  constructor
  · rintro (h | ⟨h, hnone⟩)
    · simp only [constructor?, h]
    · simp only [constructor?, h, (none_iff _).2 hnone]
  · intro h
    unfold constructor? at h
    split at h
    · cases h
      exact .type ‹_›
    · split at h
      · cases h
      · cases h
        exact .constructor ‹_› ((none_iff _).1 ‹_›)

theorem type_construction (h : catalog.Constructs subject labels) :
    (construction catalog subject labels).type = some subject := by
  obtain ⟨c, hc⟩ := constructs_iff.1 h
  rw [construction, hc]
  rfl

theorem type_construction_of_not (h : ¬ catalog.Constructs subject labels) :
    (construction catalog subject labels).type = some .errorType := by
  rw [construction]
  split
  · exact absurd (constructs_iff.2 ⟨_, ‹_›⟩) h
  · rfl

theorem issue_construction : (construction catalog subject labels).issue = some i ↔
    catalog.Lacks subject labels i := by
  rw [lacks_iff, construction]
  split
  · simp [Verdict.typed, *]
  · simp [Verdict.reported, *]

end Rule

/-! ## Verdicts -/

namespace Arena.Respells

variable {a b : Arena} {R : Respelling} {n : NodeId} {x y : ExprId} {node : ExprNode} {env : Env}
  (h : a.Respells b R n) (wf : a.WellFormed) (wf' : b.WellFormed) (L : Lexicon)
include h wf wf'

omit wf in
theorem judge_new (env : Env) (hx : a.Below n (.expr x)) (hne : x ≠ R.call)
    (hnode : a.expr x = .ok node) : L.judge env (b.term (R.expr x)) =
      ⟨R.expr x, L.verdict env (b.mark (R.expr x))
          (node.kind.map fun y => L.judge env (b.term (R.expr y))),
        node.kind.map fun y => L.judge env (b.term (R.expr y))⟩ := by
  obtain ⟨_, hnew⟩ := h.new_expr x node hx hne hnode
  rw [wf'.judge_term L env hnew]
  simp only [Expr.map_map]

/-- The name means the same. -/
theorem label_name (env : Env) :
    (L.judge env (b.term (R.expr R.name))).label = (L.judge env (a.term R.name)).label := by
  obtain ⟨text, _, _, hname, hnew⟩ := h.exists_name
  rw [wf.judge_term L env hname, wf'.judge_term L env hnew]
  rfl

/-- The two calls are judged alike if the name means a type and the arguments are judged alike. -/
theorem label_call {subject : Ty}
    (htype : (L.judge env (a.term R.name)).label.type = some (.metatype subject))
    (harguments : ∀ z ∈ R.arguments, (L.judge env (b.term (R.expr z.value))).label.type =
      (L.judge env (a.term z.value)).label.type) :
    (L.judge env (b.term (R.expr R.call))).label.note = (L.judge env (a.term R.call)).label.note ∧
      (L.judge env (b.term (R.expr R.call))).label.issue =
        (L.judge env (a.term R.call)).label.issue := by
  obtain ⟨_, hcall⟩ := h.expr_call
  obtain ⟨text, _, _, hname, -⟩ := h.exists_name
  obtain ⟨_, hcall'⟩ := h.new_call
  obtain ⟨_, hinit⟩ := h.new_init
  have hnew : ∀ z ∈ R.arguments, (⟨z.label, R.expr z.value⟩ : Argument ExprId) ∈
      R.arguments.map fun x => ⟨x.label, R.expr x.value⟩ := fun z hz => List.mem_map.2 ⟨z, hz, rfl⟩
  by_cases hfailed : ∃ z ∈ R.arguments, (L.judge env (a.term z.value)).label.type = some .errorType
  · obtain ⟨z, hz, hfailed⟩ := hfailed
    have hfailed' := (harguments z hz).trans hfailed
    rw [Lexicon.label_failedCall L wf hcall env hz hfailed,
      Lexicon.label_failedCall L wf' hcall' env (hnew z hz) hfailed']
    exact ⟨rfl, rfl⟩
  have hfine : ∀ z ∈ R.arguments, (L.judge env (a.term z.value)).label.type ≠ some .errorType :=
    fun z hz hz' => hfailed ⟨z, hz, hz'⟩
  have hfine' : ∀ z ∈ R.arguments.map fun x => (⟨x.label, R.expr x.value⟩ : Argument ExprId),
      (L.judge env (b.term z.value)).label.type ≠ some .errorType := by
    intro z hmem
    obtain ⟨y, hy, rfl⟩ := List.mem_map.1 hmem
    rw [harguments y hy]
    exact hfine y hy
  have hlabels : argumentLabels (R.arguments.map fun x =>
      (⟨x.label, R.expr x.value⟩ : Argument ExprId)) = argumentLabels R.arguments := by
    simp only [argumentLabels, List.map_map, Function.comp_def]
  have hopen := h.mark_call wf
  have hopen' : (b.mark (R.expr R.call)).closesChain = false := by
    rw [h.mark_eq wf wf' h.below_call hcall h.name_ne_call.symm, hopen]
  rw [Lexicon.label_nameCall L wf hcall hname env hfine,
    Lexicon.label_memberCall L wf' hcall' hinit env hfine', h.label_name wf wf', htype, hlabels,
    Mark.close_of_not_closes hopen, Mark.close_of_not_closes hopen', Rule.nameCall,
    Rule.memberCall, if_pos rfl]
  exact Rule.initCall_eq ..

/-- Called from outside, the two calls are judged alike too: calling a call gives no type. -/
theorem judgeCall_call (hnote : (L.judge env (b.term (R.expr R.call))).label.note =
      (L.judge env (a.term R.call)).label.note) (arguments : List (Argument (Term Verdict))) :
    L.judgeCall (L.judge env (b.term (R.expr R.call))) arguments =
      L.judgeCall (L.judge env (a.term R.call)) arguments := by
  obtain ⟨_, hcall⟩ := h.expr_call
  obtain ⟨_, hcall'⟩ := h.new_call
  have plain : ∀ (J c : Term Verdict) (cs : List (Argument (Term Verdict))), J.shape = .call c cs →
      L.judgeCall J arguments = if arguments.any (·.value.operand.isFailed) then .failed
        else unlessFailed [J.operand] (.typed none) := by
    intro J c cs hshape
    rw [Lexicon.judgeCall, hshape]
  rw [plain _ _ _ (congrArg Term.shape (wf.judge_term L env hcall)),
    plain _ _ _ (congrArg Term.shape (wf'.judge_term L env hcall')),
    unlessFailed_congr [(L.judge env (b.term (R.expr R.call))).operand]
      [(L.judge env (a.term R.call)).operand] (congrArg (fun note : ExprNote => [note.type]) hnote)]

/-- Every expression is judged like its counterpart, if the name means a type. Only the calls differ
in what they settle of what they call. -/
theorem label_new (hx : a.Below n (.expr x)) (hcontains : a.contains (.expr x))
    (htype : a.Below (.expr x) (.expr R.name) →
      ∃ subject, (L.judge env (a.term R.name)).label.type = some (.metatype subject)) :
    (L.judge env (b.term (R.expr x))).label.note = (L.judge env (a.term x)).label.note ∧
      (L.judge env (b.term (R.expr x))).label.issue = (L.judge env (a.term x)).label.issue ∧
      (x ≠ R.call → (L.judge env (b.term (R.expr x))).label = (L.judge env (a.term x)).label) := by
  induction x using wf.expr_induct with
  | node x ih =>
    have below : ∀ y, a.Child (.expr x) (.expr y) →
        (L.judge env (b.term (R.expr y))).label.note = (L.judge env (a.term y)).label.note ∧
        (L.judge env (b.term (R.expr y))).label.issue = (L.judge env (a.term y)).label.issue ∧
        (y ≠ R.call → (L.judge env (b.term (R.expr y))).label = (L.judge env (a.term y)).label) :=
      fun y hy => ih y (.single hy) (hx.tail hy) (wf.contains_child _ _ hy)
        fun hname => htype (.of_child hy hname)
    by_cases hcall : x = R.call
    · subst hcall
      obtain ⟨subject, hsubject⟩ := htype (.single h.child_name)
      obtain ⟨hnote, hissue⟩ := h.label_call wf wf' L hsubject fun z hz =>
        congrArg ExprNote.type (below z.value (h.child_argument hz)).1
      exact ⟨hnote, hissue, absurd rfl⟩
    suffices hlabel : (L.judge env (b.term (R.expr x))).label = (L.judge env (a.term x)).label from
      ⟨congrArg Verdict.note hlabel, congrArg Verdict.issue hlabel, fun _ => hlabel⟩
    by_cases hname : x = R.name
    · rw [hname]
      exact h.label_name wf wf' L env
    obtain ⟨node, hnode⟩ := exists_expr hcontains
    have slot : ∀ y ∈ node.kind.slots, a.Child (.expr x) (.expr y) :=
      fun y hy => (child_expr_iff hnode).2 ⟨y, hy, rfl⟩
    rw [h.judge_new wf' L env hx hcall hnode, wf.judge_term L env hnode,
      h.mark_eq wf wf' hx hnode hname]
    refine L.verdict_congr_operands env (a.mark x)
      (fun y hy => congrArg ExprNote.type (below y (slot y hy)).1) fun y hy arguments => ?_
    have hchild := slot y (Expr.mem_slots_of_callee? hy)
    obtain ⟨hnote, -, hlabel⟩ := below y hchild
    by_cases hycall : y = R.call
    · subst hycall
      exact h.judgeCall_call wf wf' L hnote arguments
    · obtain ⟨node', hnode'⟩ := exists_expr (wf.contains_child _ _ hchild)
      refine L.judgeCall_congr_callee (congrArg Term.shape (wf.judge_term L env hnode'))
        (congrArg Term.shape (h.judge_new wf' L env (hx.tail hchild) hycall hnode'))
        (hlabel hycall) (fun z hz => ?_) arguments
      have hz : a.Child (.expr y) (.expr z) := (child_expr_iff hnode').2 ⟨z, hz, rfl⟩
      refine congrArg ExprNote.type (ih z (.tail (.single hchild) hz) ((hx.tail hchild).tail hz)
        (wf.contains_child _ _ hz) fun hname => ?_).1
      exact htype (.of_child hchild (.of_child hz hname))

/-! ## The call of the name -/

section Notes

omit wf'

variable {notes : ExprId → ExprNote} {note : ExprNote} {subject : Ty}

/-- A call of a name settles nothing. -/
theorem callee_call (env : Env) : (L.judge env (a.term R.call)).label.callee = none := by
  obtain ⟨_, hcall⟩ := h.expr_call
  obtain ⟨text, _, hname⟩ := h.expr_name
  by_cases hfailed : ∃ z ∈ R.arguments, (L.judge env (a.term z.value)).label.type = some .errorType
  · obtain ⟨z, hz, hfailed⟩ := hfailed
    rw [Lexicon.label_failedCall L wf hcall env hz hfailed]
    rfl
  · rw [Lexicon.label_nameCall L wf hcall hname env fun z hz hz' => hfailed ⟨z, hz, hz'⟩,
      Mark.callee_close, Rule.callee_nameCall]

variable (found : ∀ d ∈ (L.judge env (a.term R.call)).findings note, notes d.expr = d.note)
include found

/-- If the notes that typing leaves say that the name means a type and that no argument has failed,
the call is judged as the construction of a value of the type. -/
theorem label_construction (hname : (notes R.name).type = some (.metatype subject))
    (harguments : ∀ z ∈ R.arguments, (notes z.value).type ≠ some .errorType) :
    (L.judge env (a.term R.call)).label =
      Rule.construction L.catalog subject (argumentLabels R.arguments) := by
  obtain ⟨_, hcall⟩ := h.expr_call
  obtain ⟨text, _, hnode⟩ := h.expr_name
  obtain ⟨noteName, noteArguments⟩ := Lexicon.notes_below_call wf hcall found
  rw [h.callee_call wf L, Option.getD_none] at noteName
  have hfine : ∀ z ∈ R.arguments, (L.judge env (a.term z.value)).label.type ≠ some .errorType := by
    intro z hz
    rw [Verdict.type, ← noteArguments z hz]
    exact harguments z hz
  rw [Lexicon.label_nameCall L wf hcall hnode env hfine, Mark.close_of_not_closes (h.mark_call wf),
    Verdict.type, ← noteName, hname, Rule.nameCall]

/-- If they say that an argument has failed, the call fails. -/
theorem label_failed {z : Argument ExprId} (hz : z ∈ R.arguments)
    (hfailed : (notes z.value).type = some .errorType) :
    (L.judge env (a.term R.call)).label = .failed := by
  obtain ⟨_, hcall⟩ := h.expr_call
  obtain ⟨-, noteArguments⟩ := Lexicon.notes_below_call wf hcall found
  rw [noteArguments z hz] at hfailed
  exact Lexicon.label_failedCall L wf hcall env hz hfailed

end Notes

/-! ## What is reported -/

omit wf in
/-- The name's `init` is not reported, whether there is such a property or not. -/
theorem diagnostics_init (env : Env) : (L.judge env (b.term R.init)).diagnostics =
    (L.judge env (b.term (R.expr R.name))).diagnostics := by
  obtain ⟨_, hinit⟩ := h.new_init
  have hissue : (L.judge env (b.term R.init)).label.issue = none := by
    rw [wf'.judge_term L env hinit]
    exact @Lexicon.issue_member_callee L env _ (by rw [h.mark_init wf']) _ _
  rw [wf'.diagnostics_term L env hinit, hissue]
  simp [Expr.slots]

/-- The same is reported about the counterparts. -/
theorem diagnostics_new (hx : a.Below n (.expr x)) (hcontains : a.contains (.expr x))
    (htype : a.Below (.expr x) (.expr R.name) →
      ∃ subject, (L.judge env (a.term R.name)).label.type = some (.metatype subject)) :
    (L.judge env (b.term (R.expr x))).diagnostics =
      (L.judge env (a.term x)).diagnostics.map (.map R.expr R.stmt) := by
  induction x using wf.expr_induct with
  | node x ih =>
    have below : ∀ y, a.Child (.expr x) (.expr y) →
        (L.judge env (b.term (R.expr y))).diagnostics =
          (L.judge env (a.term y)).diagnostics.map (.map R.expr R.stmt) := fun y hy =>
      ih y (.single hy) (hx.tail hy) (wf.contains_child _ _ hy)
        fun hname => htype (.of_child hy hname)
    have hissue := (h.label_new wf wf' L hx hcontains htype).2.1
    have hown : ((L.judge env (a.term x)).label.issue.map
        (⟨·, .expr (R.expr x)⟩ : Issue → Diagnostic)).toList =
          ((L.judge env (a.term x)).label.issue.map
            (⟨·, .expr x⟩ : Issue → Diagnostic)).toList.map (.map R.expr R.stmt) := by
      cases (L.judge env (a.term x)).label.issue <;> rfl
    by_cases hcall : x = R.call
    · subst hcall
      obtain ⟨_, hold⟩ := h.expr_call
      obtain ⟨_, hnew⟩ := h.new_call
      rw [wf.diagnostics_term L env hold, wf'.diagnostics_term L env hnew, hissue, hown,
        List.map_append]
      congr 1
      simp only [Expr.slots, List.flatMap_cons, List.map_append, List.map_map, List.flatMap_map,
        List.map_flatMap, Function.comp_def]
      rw [h.diagnostics_init wf', below _ h.child_name]
      congr 1
      exact List.flatMap_congr fun z hz => below _ (h.child_argument hz)
    · obtain ⟨node, hnode⟩ := exists_expr hcontains
      obtain ⟨_, hnew⟩ := h.new_expr x node hx hcall hnode
      rw [wf.diagnostics_term L env hnode, wf'.diagnostics_term L env hnew, hissue, hown,
        List.map_append, List.map_flatMap, Expr.slots_map, List.flatMap_map]
      congr 1
      exact List.flatMap_congr fun y hy => below y ((child_expr_iff hnode).2 ⟨y, hy, rfl⟩)

/-! ## What is found -/

/-- An expression other than the call leaves on its operands what its counterpart leaves on
theirs. -/
theorem noteOn_new (hx : a.Below n (.expr x)) (hcall : x ≠ R.call) (hnode : a.expr x = .ok node)
    (hy : y ∈ node.kind.slots)
    (htype : a.Below (.expr x) (.expr R.name) →
      ∃ subject, (L.judge env (a.term R.name)).label.type = some (.metatype subject)) :
    (L.judge env (b.term (R.expr x))).noteOn (L.judge env (b.term (R.expr y))) =
      (L.judge env (a.term x)).noteOn (L.judge env (a.term y)) := by
  obtain ⟨_, hnew⟩ := h.new_expr x node hx hcall hnode
  have hchild : a.Child (.expr x) (.expr y) := (child_expr_iff hnode).2 ⟨y, hy, rfl⟩
  have hcallee := h.eq_some_iff wf' hx hcall hnode hy fun z hz => Expr.mem_slots_of_callee? hz
  have hlabel := (h.label_new wf wf' L hx (contains_of_expr hnode) htype).2.2 hcall
  have hnote := (h.label_new wf wf' L (hx.tail hchild) (wf.contains_child _ _ hchild)
    fun hname => htype (.of_child hchild hname)).1
  simp only [wf.noteOn_term L env hnode, wf'.noteOn_term L env hnew, Expr.callee?_map, hcallee,
    hlabel, hnote]

/-- What is found on the call is found on its counterpart, if that is so for the name and the
arguments. -/
theorem findings_call {note : ExprNote}
    (hnote : ∀ y, a.Child (.expr R.call) (.expr y) →
      (L.judge env (b.term (R.expr y))).label.note = (L.judge env (a.term y)).label.note)
    (hfound : ∀ y note, a.Child (.expr R.call) (.expr y) →
      ∀ d ∈ (L.judge env (a.term y)).findings note,
        ⟨R.expr d.expr, d.note⟩ ∈ (L.judge env (b.term (R.expr y))).findings note) :
    ∀ d ∈ (L.judge env (a.term R.call)).findings note,
      ⟨R.expr d.expr, d.note⟩ ∈ (L.judge env (b.term (R.expr R.call))).findings note := by
  obtain ⟨_, hold⟩ := h.expr_call
  obtain ⟨_, hnew⟩ := h.new_call
  obtain ⟨_, hinit⟩ := h.new_init
  have own : ∀ y, (L.judge env (a.term R.call)).noteOn (L.judge env (a.term y)) =
      (L.judge env (a.term y)).label.note := by
    intro y
    rw [wf.noteOn_term L env hold, h.callee_call wf L]
    exact ite_self _
  intro d hd
  rw [wf.findings_term L env hold] at hd
  rw [wf'.findings_term L env hnew]
  refine List.mem_cons.2 ((List.mem_cons.1 hd).imp (fun hd => by rw [hd]) fun hd => ?_)
  obtain ⟨y, hy, hd⟩ := List.mem_flatMap.1 hd
  have hchild : a.Child (.expr R.call) (.expr y) := (child_expr_iff hold).2 ⟨y, hy, rfl⟩
  rw [own] at hd
  have hd := hfound y _ hchild d hd
  rw [← hnote y hchild] at hd
  rcases List.mem_cons.1 hy with rfl | hy
  · refine List.mem_flatMap.2 ⟨R.init, List.mem_cons_self, ?_⟩
    rw [wf'.findings_term L env hinit]
    refine List.mem_cons_of_mem _ (List.mem_flatMap.2 ⟨_, List.mem_singleton.2 rfl, ?_⟩)
    rw [wf'.noteOn_term L env hinit]
    exact hd
  · obtain ⟨z, hz, rfl⟩ := List.mem_map.1 hy
    refine List.mem_flatMap.2 ⟨_, List.mem_cons_of_mem _ (argument_mem hz), ?_⟩
    rw [wf'.noteOn_term L env hnew]
    split_ifs with hcallee
    · exact absurd (Option.some.inj hcallee) (h.init_ne_argument wf' hz)
    · exact hd

/-- Every note that is found below an expression is found on the counterpart. -/
theorem findings_new (hx : a.Below n (.expr x)) (hcontains : a.contains (.expr x))
    (htype : a.Below (.expr x) (.expr R.name) →
      ∃ subject, (L.judge env (a.term R.name)).label.type = some (.metatype subject))
    (note : ExprNote) : ∀ d ∈ (L.judge env (a.term x)).findings note,
      ⟨R.expr d.expr, d.note⟩ ∈ (L.judge env (b.term (R.expr x))).findings note := by
  induction x using wf.expr_induct generalizing note with
  | node x ih =>
    have below : ∀ y note, a.Child (.expr x) (.expr y) →
        ∀ d ∈ (L.judge env (a.term y)).findings note,
          ⟨R.expr d.expr, d.note⟩ ∈ (L.judge env (b.term (R.expr y))).findings note :=
      fun y note hy => ih y (.single hy) (hx.tail hy) (wf.contains_child _ _ hy)
        (fun hname => htype (.of_child hy hname)) note
    by_cases hcall : x = R.call
    · subst hcall
      refine h.findings_call wf wf' L (fun y hy => ?_) below
      exact (h.label_new wf wf' L (hx.tail hy) (wf.contains_child _ _ hy)
        fun hname => htype (.of_child hy hname)).1
    intro d hd
    obtain ⟨node, hnode⟩ := exists_expr hcontains
    obtain ⟨_, hnew⟩ := h.new_expr x node hx hcall hnode
    rw [wf.findings_term L env hnode] at hd
    rw [wf'.findings_term L env hnew, Expr.slots_map, List.flatMap_map]
    refine List.mem_cons.2 ((List.mem_cons.1 hd).imp (fun hd => by rw [hd]) fun hd => ?_)
    obtain ⟨y, hy, hd⟩ := List.mem_flatMap.1 hd
    refine List.mem_flatMap.2 ⟨y, hy, ?_⟩
    rw [h.noteOn_new wf wf' L hx hcall hnode hy htype]
    exact below y _ ((child_expr_iff hnode).2 ⟨y, hy, rfl⟩) d hd

end Arena.Respells

/-! ## Walks -/

/-- A call of a type that is spelled in two ways. -/
def Comparison.respelled (R : Respelling) : Comparison where
  presumes d := d.expr = R.name → ∃ subject, d.note.type = some (.metatype subject)
  finds fs fs' := ∀ d ∈ fs, ⟨R.expr d.expr, d.note⟩ ∈ fs'
  expr := R.expr
  stmt := R.stmt
  nil _ hd := (List.not_mem_nil hd).elim
  append h h' d hd := List.mem_append.2 ((List.mem_append.1 hd).imp (h d) (h' d))

namespace Arena.Respells

variable {a b : Arena} {R : Respelling} {n : NodeId} {x : ExprId} {env : Env}
  (h : a.Respells b R n) (wf : a.WellFormed) (wf' : b.WellFormed) (L : Lexicon)
include h wf

/-- The name itself means what is found on it: no call settles that. -/
theorem type_of_finds (hcontains : a.contains (.expr x))
    (hfinds : (Comparison.respelled R).Admits (L.evaluate [a.term x] env).1)
    (hname : a.Below (.expr x) (.expr R.name)) :
    ∃ subject, (L.judge env (a.term R.name)).label.type = some (.metatype subject) := by
  obtain ⟨text, _, hnode⟩ := h.expr_name
  refine hfinds ⟨R.name, _⟩ ?_ rfl
  rw [Lexicon.evaluate_singleton]
  refine wf.own_mem_findings_below L env hcontains hname fun _ node hnode' => ?_
  cases hnode.symm.trans hnode'
  rfl

include wf'

/-- Typing the counterpart of an expression compares to typing the expression. -/
theorem term_compares (hx : a.Below n (.expr x)) (hcontains : a.contains (.expr x)) :
    (Comparison.respelled R).Terms L (a.term x) (b.term (R.expr x)) := by
  intro env hadmits
  have htype := h.type_of_finds wf L hcontains hadmits
  have hnote := (h.label_new wf wf' L hx hcontains htype).1
  refine ⟨congrArg ExprNote.type hnote, ?_⟩
  rw [Lexicon.evaluate_singleton, Lexicon.evaluate_singleton]
  refine ⟨?_, rfl, h.diagnostics_new wf wf' L hx hcontains htype⟩
  rw [hnote]
  exact h.findings_new wf wf' L hx hcontains htype _

/-- A walk through the second program finds the notes and the names that are found in the first one,
and reports the same. -/
theorem walk_compares {root : StmtId} (hn : n = .stmt root) (hroot : a.contains (.stmt root))
    (initial : Scope) :
    (Comparison.respelled R).Walks (L.walk a.opens (a.program root) initial)
      (L.walk b.opens (b.program (R.stmt root)) initial) := by
  subst hn
  refine L.walk_compares wf hroot (fun s hs => ?_)
    (fun s node hs hnode => h.program_new wf' hs hnode) (fun s x hs hx => ?_) initial
  · obtain ⟨node, hnode⟩ := exists_stmt (wf.contains_of_below hroot hs)
    exact h.owns_eq hs hnode
  · exact h.term_compares wf wf' L (hs.tail hx) (wf.contains_child _ _ hx)

end Arena.Respells
end ExprTyping
