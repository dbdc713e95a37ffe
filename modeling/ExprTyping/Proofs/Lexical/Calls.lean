import ExprTyping.Proofs.Lexical.Chaining

/-!
# Calls of members

A member that is called is first looked up as a property, without a report if there is none, and
then the call decides what it means (`Rule.memberCall`): the `init` of a type is one of its
constructors, a property that holds a function is called through that function, and everything else
is a method.

* `CalledMember.Means` says what it is for the member to mean one of the three, and
  `Rule.memberCall_means` that a call that does not fail finds one of them.
* The call finds the method that its name, labels and static-ness mean
  (`Lexicon.memberCall_selects`), unless one of the other two comes first
  (`Lexicon.memberCall_passes_over`).
* `Lexicon.label_memberCall` and `Lexicon.label_nameCall` say by which rule a call is judged, and
  `Lexicon.exists_memberCall` reduces the notes that are left on a call of a member to the rule.
-/

namespace ExprTyping

/-! ## Methods of a lineage -/

namespace Catalog

variable {catalog : Catalog} {known : KnownType} {m : Method} {name : String}
  {labels : List String} {isStatic : Bool}

/-- The method is declared in the type or in one of its supertypes. -/
def OffersMethod (catalog : Catalog) (known : KnownType) (m : Method) : Prop :=
  ∃ owner ∈ catalog.lineage known, m ∈ owner.methods

/-- The method that is found is one that the call means. -/
theorem offersMethod_of_method? (h : catalog.method? name labels isStatic known = some m) :
    catalog.OffersMethod known m ∧ m.accepts name labels isStatic = true := by
  obtain ⟨owner, howner, hm⟩ := List.exists_of_findSome?_eq_some h
  have hm : owner.methods.find? (fun m => m.accepts name labels isStatic) = some m := hm
  have haccepts := List.find?_some hm
  exact ⟨⟨owner, howner, List.mem_of_find?_eq_some hm⟩, haccepts⟩

/-- The only method that the call means is found. -/
theorem method?_of_unique (hm : catalog.OffersMethod known m)
    (haccepts : m.accepts name labels isStatic = true)
    (hunique : ∀ m', catalog.OffersMethod known m' → m'.accepts name labels isStatic = true →
      m' = m) : catalog.method? name labels isStatic known = some m := by
  cases hfound : catalog.method? name labels isStatic known with
  | none =>
    obtain ⟨owner, howner, hmem⟩ := hm
    have hnone := List.findSome?_eq_none_iff.1 hfound owner howner
    exact absurd haccepts (List.find?_eq_none.1 hnone m hmem)
  | some m' =>
    obtain ⟨hoffers, haccepts'⟩ := offersMethod_of_method? hfound
    rw [hunique m' hoffers haccepts']

/-- The nearest property of the lineage with this name holds a function. The member `self` is never
looked up as a property. -/
def CallsProperty (catalog : Catalog) (known : KnownType) (name : String) (isStatic : Bool) :
    Prop :=
  name ≠ Name.selfMember ∧ ∃ p parameters result,
    catalog.property? name isStatic known = some p ∧ p.type = .function parameters result

end Catalog

/-! ## What a called member means -/

/-- Whether the member is the `init` of a type. -/
def MeansInit (receiver : Option Ty) (name : String) : Prop :=
  name = Name.initMember ∧ ∃ subject, receiver = some (.metatype subject)

/-- What a member that is called can mean. -/
inductive CalledMember where
  | construction
  | property
  | method

/-- A member with this note, called with these labels, means a member of this sort, which takes the
parameters and gives the result. -/
def CalledMember.Means (catalog : Catalog) (receiver : Option Ty) (name : String)
    (labels : List String) (callee : ExprNote) (parameters : List Ty) (result : Ty) :
    CalledMember → Prop
  | .construction => name = Name.initMember ∧ receiver = some (.metatype result) ∧
    ∃ known c, catalog.typeOf? result = some known ∧
      known.constructors.find? (fun c => c.labels == labels) = some c ∧
      c.parameterTypes = parameters
  | .property => ¬ MeansInit receiver name ∧
    ∃ p, callee.member = some (.property p) ∧ p.type = .function parameters result
  | .method => ¬ MeansInit receiver name ∧
    ∃ m type known, callee.member = some (.method m) ∧ receiver = some type ∧
      catalog.typeOf? type = some known ∧ catalog.OffersMethod known m ∧ m.name = name ∧
      m.labels = labels ∧ m.isStatic = type.isMetatype ∧
      m.parameters.map (·.type) = parameters ∧ m.returnType = result

namespace CalledMember

variable {catalog : Catalog} {receiver : Option Ty} {name : String} {labels : List String}
  {callee : ExprNote} {parameters : List Ty} {result : Ty} {sort sort' : CalledMember}

theorem Means.unique (h : sort.Means catalog receiver name labels callee parameters result)
    (h' : sort'.Means catalog receiver name labels callee parameters result) : sort' = sort := by
  have hinit : name = Name.initMember → receiver = some (.metatype result) →
      MeansInit receiver name := fun hname hreceiver => ⟨hname, result, hreceiver⟩
  cases sort <;> cases sort'
  case construction.construction | property.property | method.method => rfl
  case construction.property | construction.method => exact absurd (hinit h.1 h.2.1) h'.1
  case property.construction | method.construction => exact absurd (hinit h'.1 h'.2.1) h.1
  case property.method =>
    obtain ⟨-, p, hp, -⟩ := h
    obtain ⟨-, m, _, _, hm, -⟩ := h'
    cases hp.symm.trans hm
  case method.property =>
    obtain ⟨-, m, _, _, hm, -⟩ := h
    obtain ⟨-, p, hp, -⟩ := h'
    cases hp.symm.trans hm

end CalledMember

/-! ## The rule -/

namespace Rule

variable {catalog : Catalog} {receiver : Option Ty} {type subject : Ty} {name : String}
  {callee : ExprNote} {labels : List String} {known : KnownType} {m : Method}

theorem constructor?_eq_ok {c : Constructor} (h : constructor? catalog subject labels = .ok c) :
    ∃ known, catalog.typeOf? subject = some known ∧
      known.constructors.find? (fun c => c.labels == labels) = some c := by
  unfold constructor? at h
  split at h
  · cases h
  · rename_i known hknown
    split at h
    · cases h
      exact ⟨known, hknown, ‹_›⟩
    · cases h

/-- A call of the `init` of a type that does not fail is a call of a constructor. -/
theorem initCall_means (h : (initCall catalog subject callee labels).type ≠ some .errorType) :
    ∃ parameters, (initCall catalog subject callee labels).type = some subject ∧
      ((initCall catalog subject callee labels).callee.getD callee).type =
        some (.function parameters subject) ∧
      CalledMember.construction.Means catalog (some (.metatype subject)) Name.initMember labels
        ((initCall catalog subject callee labels).callee.getD callee) parameters subject := by
  cases hc : constructor? catalog subject labels with
  | error issue => simp [initCall, hc, Verdict.reported, Verdict.failed, Verdict.typed,
      Verdict.type] at h
  | ok c =>
    obtain ⟨known, hknown, hfind⟩ := constructor?_eq_ok hc
    simp only [initCall, hc]
    exact ⟨c.parameterTypes, rfl, rfl, rfl, rfl, known, c, hknown, hfind, rfl⟩

/-- Any other call of a member that does not fail is a call of a property or a method. -/
theorem methodCall_means (hinit : ¬ MeansInit (some type) name)
    (hproperty : ∀ p, callee.member = some (.property p) → callee.type = some p.type)
    (h : (methodCall catalog type name callee labels).type ≠ some .errorType) :
    ∃ parameters result sort, (methodCall catalog type name callee labels).type = some result ∧
      ((methodCall catalog type name callee labels).callee.getD callee).type =
        some (.function parameters result) ∧
      CalledMember.Means catalog (some type) name labels
        ((methodCall catalog type name callee labels).callee.getD callee) parameters result
        sort := by
  cases hreturned : returnedByProperty? callee.member with
  | some result =>
    obtain ⟨p, hp, parameters, hfunction⟩ := exists_property_of_returned hreturned
    simp only [methodCall, hreturned]
    refine ⟨parameters, result, .property, rfl, ?_, hinit, p, hp, hfunction⟩
    exact (hproperty p hp).trans (congrArg some hfunction)
  | none =>
    simp only [methodCall, hreturned] at h ⊢
    split at h
    · exact absurd rfl h
    · rename_i known hknown
      split at h
      · rename_i m hm
        obtain ⟨hoffers, haccepts⟩ := Catalog.offersMethod_of_method? hm
        simp only [Method.accepts, Bool.and_eq_true, beq_iff_eq] at haccepts
        dsimp only
        exact ⟨_, _, .method, rfl, rfl, hinit, m, type, known, rfl, rfl, hknown, hoffers,
          haccepts.1.1, haccepts.2, haccepts.1.2, rfl, rfl⟩
      · exact absurd rfl h

/-- A call of a member that does not fail finds what the member means, and the callee has the type
of what is called. -/
theorem memberCall_means
    (hproperty : ∀ p, callee.member = some (.property p) → callee.type = some p.type)
    (h : (memberCall catalog receiver name callee labels).type ≠ some .errorType) :
    ∃ parameters result sort, (memberCall catalog receiver name callee labels).type = some result ∧
      ((memberCall catalog receiver name callee labels).callee.getD callee).type =
        some (.function parameters result) ∧
      CalledMember.Means catalog receiver name labels
        ((memberCall catalog receiver name callee labels).callee.getD callee) parameters result
        sort := by
  unfold memberCall at h ⊢
  split at h
  · exact absurd rfl h
  · exact absurd rfl h
  · rename_i subject
    split_ifs at h ⊢ with hname
    · subst hname
      obtain ⟨parameters, hmeans⟩ := initCall_means h
      exact ⟨parameters, subject, .construction, hmeans⟩
    · exact methodCall_means (fun hinit => hname hinit.1) hproperty h
  · rename_i type _ hmetatype
    refine methodCall_means (fun hinit => ?_) hproperty h
    obtain ⟨-, subject, hsubject⟩ := hinit
    exact hmetatype subject (Option.some.inj hsubject)

/-- A call of a method finds the method, unless the member is the `init` of a type or a property
that holds a function. -/
theorem memberCall_method (hfailed : type ≠ .errorType) (hinit : ¬ MeansInit (some type) name)
    (hproperty : returnedByProperty? callee.member = none)
    (hknown : catalog.typeOf? type = some known)
    (hm : catalog.method? name labels type.isMetatype known = some m) :
    memberCall catalog (some type) name callee labels =
      { note := { type := some m.returnType }
        callee := some
          { callee with type := some m.functionType, member := some (.method m) } } := by
  have hmethod : memberCall catalog (some type) name callee labels =
      methodCall catalog type name callee labels := by
    unfold memberCall
    split
    · cases ‹some type = none›
    · exact absurd (Option.some.inj ‹_›) hfailed
    · rename_i subject heq
      cases heq
      exact if_neg fun hname => hinit ⟨hname, subject, rfl⟩
    · rename_i heq
      cases heq
      rfl
  rw [hmethod, methodCall, hproperty]
  simp only [hknown, hm]

/-- A call of the `init` of a type, or of a property that holds a function, leaves the callee the
member that it was found to be. -/
theorem member_of_memberCall (h : MeansInit receiver name ∨
      (returnedByProperty? callee.member).isSome = true) :
    ((memberCall catalog receiver name callee labels).callee.getD callee).member =
      callee.member := by
  have hinitCall : ∀ subject, ((initCall catalog subject callee labels).callee.getD callee).member =
      callee.member := by
    intro subject
    unfold initCall
    split <;> rfl
  have hmethodCall : ∀ type, (returnedByProperty? callee.member).isSome = true →
      ((methodCall catalog type name callee labels).callee.getD callee).member =
        callee.member := by
    intro type hsome
    obtain ⟨result, hresult⟩ := Option.isSome_iff_exists.1 hsome
    rw [methodCall, hresult]
    rfl
  unfold memberCall
  split
  · rfl
  · rfl
  · split_ifs with hname
    · exact hinitCall _
    · exact hmethodCall _ (h.resolve_left fun hinit => hname hinit.1)
  · rename_i type _ hmetatype
    refine hmethodCall _ (h.resolve_left ?_)
    rintro ⟨-, subject, hsubject⟩
    exact hmetatype subject (Option.some.inj hsubject)

end Rule

/-! ## The callee before the call -/

namespace Lexicon

variable {L : Lexicon} {x : ExprId} {type : Ty} {name : String} {labels : List String}
  {known : KnownType} {m : Method} {isCallee : Bool} {receiver : Operand}

/-- A member access means the property that the look-up finds, and never a method. -/
theorem member_judgeMember (hfailed : type ≠ .errorType) :
    (L.judgeMember isCallee ⟨x, some type⟩ name).note.member =
      if name = Name.selfMember then none
      else ((L.catalog.typeOf? type).bind
        (L.catalog.property? name type.isMetatype)).map .property := by
  have hreceiver : Operand.isFailed ⟨x, some type⟩ = false := by
    simpa [Operand.isFailed] using hfailed
  rw [judgeMember, hreceiver, if_neg Bool.false_ne_true]
  split_ifs
  · rfl
  · simp only [Rule.property]
    cases L.catalog.typeOf? type with
    | none => cases isCallee <;> rfl
    | some known =>
      dsimp only [Option.bind_some]
      cases L.catalog.property? name type.isMetatype known with
      | none => cases isCallee <;> rfl
      | some p => rfl

theorem not_method_of_judgeMember (hfailed : type ≠ .errorType) :
    (L.judgeMember isCallee ⟨x, some type⟩ name).note.member ≠ some (.method m) := by
  rw [member_judgeMember hfailed]
  split_ifs
  · simp
  · cases (L.catalog.typeOf? type).bind (L.catalog.property? name type.isMetatype) <;> simp

/-- A member access that means a property has its type. -/
theorem type_of_member {p : Property}
    (h : (L.judgeMember isCallee receiver name).note.member = some (.property p)) :
    (L.judgeMember isCallee receiver name).note.type = some p.type := by
  unfold judgeMember at h ⊢
  split_ifs at h ⊢
  · cases h
  · cases h
  · cases htype : receiver.type with
    | none => rw [htype] at h; cases h
    | some t =>
      rw [htype] at h
      exact Rule.type_of_property h

/-- The member is called through a function exactly if the nearest property holds one. -/
theorem returnedByProperty?_judgeMember (hfailed : type ≠ .errorType)
    (hknown : L.catalog.typeOf? type = some known) :
    (Rule.returnedByProperty?
        (L.judgeMember isCallee ⟨x, some type⟩ name).note.member).isSome = true ↔
      L.catalog.CallsProperty known name type.isMetatype := by
  rw [member_judgeMember hfailed, hknown, Option.bind_some, Catalog.CallsProperty]
  by_cases hname : name = Name.selfMember
  · simp [hname, Rule.returnedByProperty?]
  · rw [if_neg hname]
    cases L.catalog.property? name type.isMetatype known with
    | none => simp [Rule.returnedByProperty?]
    | some p =>
      obtain ⟨pname, ptype, isStatic⟩ := p
      cases ptype <;> simp [Rule.returnedByProperty?, hname]

section Selection

variable {callee : ExprNote} {v : Verdict} (hfailed : type ≠ .errorType)
  (hknown : L.catalog.typeOf? type = some known)
  (hcallee : callee = (L.judgeMember true ⟨x, some type⟩ name).note)
  (hv : v = Rule.memberCall L.catalog (some type) name callee labels)
include hfailed hknown hcallee hv

/-- A call selects the method that its name, labels and static-ness mean, if the member is neither
the `init` of a type nor a property that holds a function. -/
theorem memberCall_selects (hm : L.catalog.method? name labels type.isMetatype known = some m)
    (hinit : ¬ MeansInit (some type) name)
    (hcalls : ¬ L.catalog.CallsProperty known name type.isMetatype) :
    v.type = some m.returnType ∧ (v.callee.getD callee).type = some m.functionType ∧
      (v.callee.getD callee).member = some (.method m) := by
  have hnone : Rule.returnedByProperty? callee.member = none := by
    rw [← Option.not_isSome_iff_eq_none, hcallee, returnedByProperty?_judgeMember hfailed hknown]
    exact hcalls
  rw [hv, Rule.memberCall_method hfailed hinit hnone hknown hm]
  exact ⟨rfl, rfl, rfl⟩

/-- A call passes over all methods if the member is the `init` of a type or a property that holds a
function. -/
theorem memberCall_passes_over (h : MeansInit (some type) name ∨
      L.catalog.CallsProperty known name type.isMetatype) (m : Method) :
    (v.callee.getD callee).member ≠ some (.method m) := by
  have hkept : MeansInit (some type) name ∨
      (Rule.returnedByProperty? callee.member).isSome = true := by
    rwa [hcallee, returnedByProperty?_judgeMember hfailed hknown]
  rw [hv, Rule.member_of_memberCall hkept, hcallee]
  exact not_method_of_judgeMember hfailed

end Selection

/-! ## The notes on a call -/

section Notes

variable {a : Arena} {env : Env} {call callee receiver : ExprId}
  {arguments : List (Argument ExprId)} {parent parent' : Option NodeId} {note : ExprNote}
  {notes : ExprId → ExprNote}

/-- The verdict on a called member is the one that the look-up gives: it closes no chain. -/
theorem label_callee (L : Lexicon) (wf : a.WellFormed)
    (hcall : a.expr call = .ok ⟨.call callee arguments, parent⟩)
    (hcallee : a.expr callee = .ok ⟨.member receiver name, parent'⟩) (env : Env) :
    (L.judge env (a.term callee)).label =
      L.judgeMember true (L.judge env (a.term receiver)).operand name := by
  have hmark : a.mark callee = ⟨true, false⟩ := by
    rw [Arena.mark_of_isReceiver (wf.isReceiver_of_receiver? hcall rfl),
      wf.isCallee_of_callee? hcall rfl]
    rfl
  rw [wf.judge_term L env hcallee, hmark]
  exact Mark.close_of_not_closes rfl _

/-- A call with arguments that have not failed is judged by what is called. -/
theorem judgeCall_of_arguments (L : Lexicon) (J : Term Verdict) (operand : ExprId → Term Verdict)
    (harguments : ∀ x ∈ arguments, (operand x.value).label.type ≠ some .errorType) :
    L.judgeCall J (arguments.map fun x => ⟨x.label, operand x.value⟩) =
      match J.shape with
      | .member receiver name => Rule.memberCall L.catalog receiver.label.type name J.label.note
          (argumentLabels arguments)
      | .identifier _ => Rule.nameCall L.catalog J.label.type (argumentLabels arguments)
      | _ => unlessFailed [J.operand] (.typed none) := by
  have hnone : ¬ (arguments.map fun x => (⟨x.label, operand x.value⟩ :
      Argument (Term Verdict))).any (·.value.operand.isFailed) = true := by
    simp only [List.any_map, List.any_eq_true, not_exists, not_and, Function.comp_apply,
      Operand.isFailed, Term.operand, beq_iff_eq]
    exact harguments
  have hlabels : argumentLabels (arguments.map fun x =>
      (⟨x.label, operand x.value⟩ : Argument (Term Verdict))) = argumentLabels arguments := by
    simp only [argumentLabels, List.map_map, Function.comp_def]
  rw [judgeCall, if_neg hnone]
  cases J.shape <;> simp only [hlabels]

/-- The verdict on a call of a member with arguments that have not failed. -/
theorem label_memberCall (L : Lexicon) (wf : a.WellFormed)
    (hcall : a.expr call = .ok ⟨.call callee arguments, parent⟩)
    (hcallee : a.expr callee = .ok ⟨.member receiver name, parent'⟩) (env : Env)
    (harguments : ∀ x ∈ arguments, (L.judge env (a.term x.value)).label.type ≠ some .errorType) :
    (L.judge env (a.term call)).label = (a.mark call).close
      (Rule.memberCall L.catalog (L.judge env (a.term receiver)).label.type name
        (L.judge env (a.term callee)).label.note (argumentLabels arguments)) := by
  rw [wf.judge_term L env hcall]
  show Mark.close _ (L.judgeCall _ (arguments.map _)) = _
  rw [L.judgeCall_of_arguments _ (fun x => L.judge env (a.term x)) harguments]
  dsimp only
  rw [congrArg Term.shape (wf.judge_term L env hcallee)]
  rfl

/-- The verdict on a call of a name with arguments that have not failed. -/
theorem label_nameCall (L : Lexicon) (wf : a.WellFormed)
    (hcall : a.expr call = .ok ⟨.call callee arguments, parent⟩)
    (hcallee : a.expr callee = .ok ⟨.identifier name, parent'⟩) (env : Env)
    (harguments : ∀ x ∈ arguments, (L.judge env (a.term x.value)).label.type ≠ some .errorType) :
    (L.judge env (a.term call)).label = (a.mark call).close
      (Rule.nameCall L.catalog (L.judge env (a.term callee)).label.type
        (argumentLabels arguments)) := by
  rw [wf.judge_term L env hcall]
  show Mark.close _ (L.judgeCall _ (arguments.map _)) = _
  rw [L.judgeCall_of_arguments _ (fun x => L.judge env (a.term x)) harguments]
  dsimp only
  rw [congrArg Term.shape (wf.judge_term L env hcallee)]
  rfl

/-- A call with an argument that has failed fails. -/
theorem label_failedCall (L : Lexicon) (wf : a.WellFormed)
    (hcall : a.expr call = .ok ⟨.call callee arguments, parent⟩) (env : Env)
    {x : Argument ExprId} (hx : x ∈ arguments)
    (hfailed : (L.judge env (a.term x.value)).label.type = some .errorType) :
    (L.judge env (a.term call)).label = .failed := by
  have hmem : (⟨x.label, L.judge env (a.term x.value)⟩ : Argument (Term Verdict)) ∈
      arguments.map fun y => ⟨y.label, L.judge env (a.term y.value)⟩ :=
    List.mem_map.2 ⟨x, hx, rfl⟩
  rw [wf.judge_term L env hcall]
  show Mark.close _ (L.judgeCall _ _) = _
  rw [judgeCall_argument_failed hmem hfailed]
  rfl

variable (wf : a.WellFormed) (hcall : a.expr call = .ok ⟨.call callee arguments, parent⟩)
  (hcallee : a.expr callee = .ok ⟨.member receiver name, parent'⟩)
  (hleaves : (L.judge env (a.term call)).Leaves note)
  (found : ∀ f ∈ (L.judge env (a.term call)).findings note, notes f.expr = f.note)

include wf hcall found in
/-- The notes that typing a call leaves on the callee and the arguments. -/
theorem notes_below_call :
    notes callee = (L.judge env (a.term call)).label.callee.getD
        (L.judge env (a.term callee)).label.note ∧
      ∀ x ∈ arguments, notes x.value = (L.judge env (a.term x.value)).label.note := by
  have hT := wf.holds_term (Arena.contains_of_expr hcall)
  have hshape : (a.term call).shape =
      .call (a.term callee) (arguments.map fun x => ⟨x.label, a.term x.value⟩) := by
    rw [wf.term_eq hcall]
    rfl
  have hoperand : ∀ y ∈ (Expr.call callee arguments).slots, notes y =
      (L.judge env (a.term call)).noteOn (L.judge env (a.term y)) := fun y hy =>
    found _ (wf.findings_operand L env hcall hy note (a.own_mem_findings L env y _))
  refine ⟨?_, fun x hx => ?_⟩
  · rw [hoperand callee List.mem_cons_self, noteOn_callee hshape]
  · have hmem : x.value ∈ (Expr.call callee arguments).slots :=
      List.mem_cons_of_mem _ (List.mem_map.2 ⟨x, hx, rfl⟩)
    rw [hoperand _ hmem]
    exact noteOn_of_not_callee wf hT (wf.term_mem_slots hcall hmem)
      (not_callee_of_argument wf hT hshape (List.mem_map.2 ⟨x, hx, rfl⟩))

include wf hcall hcallee found in
/-- The note that typing a call of a member leaves on the member's receiver. -/
theorem note_receiver : notes receiver = (L.judge env (a.term receiver)).label.note := by
  have hmem : callee ∈ (Expr.call callee arguments).slots := List.mem_cons_self
  rw [found _ (wf.findings_operand L env hcall hmem note (wf.findings_operand L env hcallee
    (List.mem_singleton.2 rfl) _ (a.own_mem_findings L env receiver _)))]
  exact wf.noteOn_term L env hcallee receiver

include wf hcall hleaves found in
/-- A call keeps its own note: it is no member access. -/
theorem note_call : notes call = (L.judge env (a.term call)).label.note := by
  rw [found _ (a.own_mem_findings L env call note)]
  exact note_of_leaves hleaves (by rw [wf.term_eq hcall]; rfl)

include wf hcall hcallee hleaves found in
/-- The notes that typing a call of a member leaves on the call and on the member, from those on the
receiver and on the arguments. -/
theorem exists_memberCall :
    ((notes call).type ≠ some .errorType →
        ∀ x ∈ arguments, (notes x.value).type ≠ some .errorType) ∧
      ((∀ x ∈ arguments, (notes x.value).type ≠ some .errorType) →
        ∃ looked v, looked = (L.judgeMember true ⟨receiver, (notes receiver).type⟩ name).note ∧
          v = Rule.memberCall L.catalog (notes receiver).type name looked
            (argumentLabels arguments) ∧
          notes call = ((a.mark call).close v).note ∧ notes callee = v.callee.getD looked) := by
  obtain ⟨noteCallee, noteArguments⟩ := notes_below_call wf hcall found
  have noteReceiver := note_receiver wf hcall hcallee found
  have noteCall := note_call wf hcall hleaves found
  constructor
  · intro hne x hx hfailed
    have hfailed : (L.judge env (a.term x.value)).label.type = some .errorType := by
      rw [Verdict.type, ← noteArguments x hx]
      exact hfailed
    apply hne
    rw [noteCall, label_failedCall L wf hcall env hx hfailed]
    rfl
  · intro harguments
    have hlabel := label_memberCall L wf hcall hcallee env fun x hx => by
      rw [Verdict.type, ← noteArguments x hx]
      exact harguments x hx
    have hlooked := label_callee L wf hcall hcallee env
    refine ⟨(L.judge env (a.term callee)).label.note, _, ?_, rfl, ?_, ?_⟩
    · rw [hlooked, noteReceiver]
      rfl
    · rw [noteCall, hlabel, noteReceiver]
      rfl
    · rw [noteCallee, hlabel, Mark.callee_close, noteReceiver]
      rfl

end Notes
end Lexicon
end ExprTyping
