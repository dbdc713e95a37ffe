import ExprTyping.Proofs.Catalog.Extension
import ExprTyping.Proofs.Lexical.Redeclaration

/-!
# A name that nothing mentions

A walk asks the catalog about the identifiers of a program and about the types that come up. If
neither a program nor anything around it mentions a name, then no type that comes up names it, and
what the catalog knows of the name is never asked for: two lexicons that differ only there give the
same verdicts (`Lexicon.Extends.judge`).

Every rule comes in two lemmas: over the two catalogs it gives the same, and what it gives does not
name the name (`Verdict.Avoids`). Besides the type, the property that a member access means is kept
in view: a call of the access reads it.
-/

namespace ExprTyping

variable {name other : String}

/-! ## Verdicts -/

/-- Neither the type of the expression nor that of the property that the expression means names
`name`. -/
structure Verdict.Avoids (name : String) (v : Verdict) : Prop where
  type : v.note.type.all (Ty.avoids name)
  property : ∀ p, v.note.member = some (.property p) → p.type.avoids name

namespace Verdict.Avoids

variable {v : Verdict} {type : Option Ty}

/-- If the expression means no property, only its type counts. -/
theorem of_type (htype : v.note.type.all (Ty.avoids name)) (hmember : v.note.member = none) :
    v.Avoids name :=
  ⟨htype, fun p hp => by rw [hmember] at hp; cases hp⟩

theorem typed (h : type.all (Ty.avoids name)) : (Verdict.typed type).Avoids name := .of_type h rfl

theorem failed : Verdict.failed.Avoids name := .typed rfl

theorem reported (i : Issue) : (Verdict.reported i).Avoids name := .of_type rfl rfl

theorem unlessFailed {operands : List Operand} (h : v.Avoids name) :
    (unlessFailed operands v).Avoids name := by
  unfold ExprTyping.unlessFailed
  split_ifs
  · exact failed
  · exact h

end Verdict.Avoids

/-! ## Rules -/

namespace Rule

open Catalog (AgreeBut)

variable {catalog catalog' : Catalog} {t : Ty} {type receiver index : Option Ty}
  {labels : List String} {callee : ExprNote} {member : String}

theorem ternary_avoids {ifTrue ifFalse : Option Ty} (h : ifTrue.all (Ty.avoids name)) :
    (ternary ifTrue ifFalse).Avoids name := by
  unfold ternary
  split_ifs
  · exact .typed h
  · split
    · exact .reported _
    · exact .failed

theorem integerSubscript_avoids {element : Ty} (h : element.avoids name) :
    (integerSubscript t index element).Avoids name := by
  unfold integerSubscript
  split
  · exact .typed h
  · exact .reported _
  · exact .typed rfl

section

variable (harray : name ≠ Collection.legacyArray.name)
  (hdictionary : name ≠ Collection.legacyDictionary.name)
include harray hdictionary

theorem subscript_avoids (h : receiver.all (Ty.avoids name)) :
    (subscript catalog receiver index).Avoids name := by
  have hereditary := Ty.hereditary_avoids harray hdictionary
  unfold subscript
  split
  · exact .typed rfl
  · split
    · exact integerSubscript_avoids (hereditary.arrayElement? h ‹_›)
    · rename_i hentry
      have hvalue := hereditary.dictionaryEntry? h hentry
      exact .typed hvalue
    · split_ifs
      · exact integerSubscript_avoids rfl
      · exact .typed rfl
      · exact .typed rfl

theorem loopElement_avoids (h : type.all (Ty.avoids name)) :
    (loopElement catalog type).1.avoids name := by
  have hereditary := Ty.hereditary_avoids harray hdictionary
  unfold loopElement
  split
  · rfl
  · split
    · exact hereditary.arrayElement? h ‹_›
    · split_ifs <;> rfl

end

section

variable (avoids : catalog.Avoids name)
include avoids

theorem property_avoids {isCallee : Bool} : (property catalog t member isCallee).Avoids name := by
  unfold property
  split
  · split_ifs
    · exact .failed
    · exact .reported _
  · rename_i k found
    split
    · rename_i p hp
      have htype := avoids.property (Catalog.mem_of_typeOf? found) hp
      exact ⟨htype, fun q hq => by cases hq; exact htype⟩
    · split_ifs
      · exact .failed
      · exact .reported _

theorem methodCall_avoids
    (hcallee : ∀ p, callee.member = some (.property p) → p.type.avoids name) :
    (methodCall catalog t member callee labels).Avoids name := by
  unfold methodCall
  split
  · rename_i result hresult
    obtain ⟨p, hp, parameters, htype⟩ := exists_property_of_returned hresult
    exact .typed (Ty.avoids_result (htype ▸ hcallee p hp))
  · split
    · exact .reported _
    · rename_i k found
      split
      · exact .of_type (avoids.method (Catalog.mem_of_typeOf? found) ‹_›) rfl
      · exact .reported _

omit avoids in
theorem initCall_avoids (h : t.avoids name) : (initCall catalog t callee labels).Avoids name := by
  unfold initCall
  split
  · exact .of_type h rfl
  · exact .reported _

theorem memberCall_avoids (h : receiver.all (Ty.avoids name))
    (hcallee : ∀ p, callee.member = some (.property p) → p.type.avoids name) :
    (memberCall catalog receiver member callee labels).Avoids name := by
  unfold memberCall
  split
  · exact .failed
  · exact .failed
  · split_ifs
    · exact initCall_avoids h
    · exact methodCall_avoids avoids hcallee
  · exact methodCall_avoids avoids hcallee

omit avoids in
theorem nameCall_avoids (h : type.all (Ty.avoids name)) :
    (nameCall catalog type labels).Avoids name := by
  unfold nameCall
  split
  · unfold construction
    split
    · exact .typed h
    · exact .reported _
  · exact .failed
  · exact .typed rfl

end

section

variable (agree : AgreeBut name catalog catalog') (avoids : catalog.Avoids name)
include agree avoids

theorem isInstance_agree (h : t.avoids name) (base : Collection) :
    isInstance catalog' t base = isInstance catalog t base := by
  unfold isInstance
  split
  · exact (agree.agreeAbove avoids (Ty.avoids_named.1 h)).isSubtype_eq _
  · rfl

theorem subscript_agree (h : receiver.all (Ty.avoids name)) (index : Option Ty) :
    subscript catalog' receiver index = subscript catalog receiver index := by
  cases receiver with
  | none => rfl
  | some t =>
    have instances := isInstance_agree agree avoids (show t.avoids name from h)
    simp only [subscript, instances]

theorem loopElement_agree (h : type.all (Ty.avoids name)) :
    loopElement catalog' type = loopElement catalog type := by
  cases type with
  | none => rfl
  | some t =>
    have instances := isInstance_agree agree avoids (show t.avoids name from h)
    simp only [loopElement, instances]

theorem property_agree (h : t.avoids name) (member : String) (isCallee : Bool) :
    property catalog' t member isCallee = property catalog t member isCallee := by
  rw [property, property, Catalog.typeOf?_agree agree h]
  cases found : catalog.typeOf? t with
  | none => rfl
  | some k =>
    obtain ⟨other, hne, known⟩ := Catalog.exists_knownType?_of_typeOf? h found
    simp only [(agree.agreeAbove avoids hne).property?_eq known]

theorem methodCall_agree (h : t.avoids name) (member : String) (callee : ExprNote)
    (labels : List String) :
    methodCall catalog' t member callee labels = methodCall catalog t member callee labels := by
  rw [methodCall, methodCall, Catalog.typeOf?_agree agree h]
  cases found : catalog.typeOf? t with
  | none => rfl
  | some k =>
    obtain ⟨other, hne, known⟩ := Catalog.exists_knownType?_of_typeOf? h found
    simp only [(agree.agreeAbove avoids hne).method?_eq known]

omit avoids in
theorem constructor?_agree (h : t.avoids name) (labels : List String) :
    constructor? catalog' t labels = constructor? catalog t labels := by
  rw [constructor?, constructor?, Catalog.typeOf?_agree agree h]

theorem memberCall_agree (h : receiver.all (Ty.avoids name)) (member : String)
    (callee : ExprNote) (labels : List String) :
    memberCall catalog' receiver member callee labels =
      memberCall catalog receiver member callee labels := by
  cases receiver with
  | none => rfl
  | some t =>
    have method := methodCall_agree agree avoids (show t.avoids name from h) member callee labels
    cases t with
    | metatype subject =>
      have init : initCall catalog' subject callee labels =
          initCall catalog subject callee labels := by
        rw [initCall, initCall, constructor?_agree agree (show subject.avoids name from h)]
      simp only [memberCall, init, method]
    | errorType => rfl
    | _ => exact method

omit avoids in
theorem nameCall_agree (h : type.all (Ty.avoids name)) (labels : List String) :
    nameCall catalog' type labels = nameCall catalog type labels := by
  unfold nameCall
  split
  · rename_i subject
    rw [construction, construction, constructor?_agree agree (show subject.avoids name from h)]
  · rfl
  · rfl

end

end Rule

/-! ## Terms -/

/-- What is written below the node does not mention `name`: it is no identifier there, and no type
in a declaration or a cast names it. -/
structure Arena.Avoids (a : Arena) (n : NodeId) (name : String) : Prop where
  identifier : ¬ a.Mentions n name
  declared : ∀ s node declarations, a.Below n (.stmt s) → a.stmt s = .ok node →
    node.kind = .variables declarations → ∀ d ∈ declarations, d.type.avoids name
  cast : ∀ e node x target, a.Below n (.expr e) → a.expr e = .ok node →
    node.kind = .cast x target → target.avoids name

theorem Arena.Avoids.below {a : Arena} {n m : NodeId} (h : a.Avoids n name) (hm : a.Below n m) :
    a.Avoids m name where
  identifier hmention := h.identifier (hmention.of_below hm)
  declared s node declarations hs := h.declared s node declarations (hm.trans hs)
  cast e node x target he := h.cast e node x target (hm.trans he)

/-- The two lexicons differ at most in what their catalogs know of `name`, and neither catalog nor
intrinsics lead there from anything else. -/
structure Lexicon.Extends (L L' : Lexicon) (name : String) : Prop where
  agree : Catalog.AgreeBut name L.catalog L'.catalog
  intrinsics_eq : L'.intrinsics = L.intrinsics
  catalog : L.catalog.Avoids name
  intrinsics : L.intrinsics.Avoids name
  ne_array : name ≠ Collection.legacyArray.name
  ne_dictionary : name ≠ Collection.legacyDictionary.name

namespace Lexicon.Extends

variable {L L' : Lexicon} {env : Env} {mark : Mark} {a : Arena} {T : Term Mark}
  (h : L.Extends L' name)
include h

theorem meaning?_agree (env : Env) (hne : other ≠ name) :
    L'.meaning? env other = L.meaning? env other := by
  rw [meaning?, meaning?, h.intrinsics_eq, h.agree other hne]

theorem meaning?_avoids {b : Binding} (henv : env.All fun d => d.type.avoids name)
    (hne : other ≠ name) (hb : L.meaning? env other = some b) : b.type.avoids name := by
  unfold meaning? at hb
  split at hb
  · cases hb
    exact h.intrinsics.definition _ _ ‹_›
  · split at hb
    · cases hb
      exact henv.find? ‹_›
    · split at hb
      · cases hb
        exact h.intrinsics.implicitMember _ _ ‹_›
      · obtain ⟨k, known, rfl⟩ := Option.map_eq_some_iff.1 hb
        exact Ty.avoids_named.2 (Catalog.typeName_of_knownType? known ▸ hne)

theorem judgeName_avoids (henv : env.All fun d => d.type.avoids name) (hne : other ≠ name) :
    (L.judgeName env other).Avoids name := by
  unfold judgeName
  split
  · exact .of_type (h.meaning?_avoids henv hne ‹_›) rfl
  · exact .reported _

theorem judgeMember_agree {receiver : Operand} (hreceiver : receiver.type.all (Ty.avoids name))
    (isCallee : Bool) (member : String) :
    L'.judgeMember isCallee receiver member = L.judgeMember isCallee receiver member := by
  unfold judgeMember
  cases htype : receiver.type with
  | none => rfl
  | some t =>
    rw [htype] at hreceiver
    simp only [Rule.property_agree h.agree h.catalog (show t.avoids name from hreceiver)]

theorem judgeMember_avoids {receiver : Operand} (hreceiver : receiver.type.all (Ty.avoids name))
    (isCallee : Bool) (member : String) :
    (L.judgeMember isCallee receiver member).Avoids name := by
  unfold judgeMember
  split_ifs
  · exact .failed
  · exact .typed hreceiver
  · split
    · exact .failed
    · exact Rule.property_avoids h.catalog

theorem judgeCall_agree {callee : Term Verdict} (hcallee : callee.label.Avoids name)
    (hreceiver : ∀ x ∈ callee.shape.slots, x.label.Avoids name)
    (arguments : List (Argument (Term Verdict))) :
    L'.judgeCall callee arguments = L.judgeCall callee arguments := by
  unfold judgeCall
  split_ifs
  · rfl
  · split
    · rename_i receiver member hshape
      rw [hshape] at hreceiver
      exact Rule.memberCall_agree h.agree h.catalog
        (hreceiver receiver (List.mem_singleton.2 rfl)).type _ _ _
    · exact Rule.nameCall_agree h.agree hcallee.type _
    · rfl

theorem judgeCall_avoids {callee : Term Verdict} (hcallee : callee.label.Avoids name)
    (hreceiver : ∀ x ∈ callee.shape.slots, x.label.Avoids name)
    (arguments : List (Argument (Term Verdict))) :
    (L.judgeCall callee arguments).Avoids name := by
  unfold judgeCall
  split_ifs
  · exact .failed
  · split
    · rename_i receiver member hshape
      rw [hshape] at hreceiver
      exact Rule.memberCall_avoids h.catalog (hreceiver receiver (List.mem_singleton.2 rfl)).type
        hcallee.property
    · exact Rule.nameCall_avoids hcallee.type
    · exact .unlessFailed (.typed rfl)

theorem close_avoids {v : Verdict} (hv : v.Avoids name) : (mark.close v).Avoids name where
  type := (Ty.hereditary_avoids h.ne_array h.ne_dictionary).close hv.type
  property p hp := hv.property p ((Mark.member_close mark v).symm.trans hp)

theorem verdict_agree {k : Expr (Term Verdict)}
    (hname : ∀ other, k = .identifier other → other ≠ name)
    (hslots : ∀ x ∈ k.slots, x.label.Avoids name)
    (hcallee : ∀ x, k.callee? = some x → ∀ y ∈ x.shape.slots, y.label.Avoids name) :
    L'.verdict env mark k = L.verdict env mark k := by
  cases k with
  | identifier other => simp only [verdict, judgeName, h.meaning?_agree env (hname other rfl)]
  | member receiver member =>
    have hreceiver : receiver.operand.type.all (Ty.avoids name) :=
      (hslots receiver (List.mem_singleton.2 rfl)).type
    simp only [verdict, h.judgeMember_agree hreceiver]
  | subscript receiver index =>
    have hreceiver : receiver.label.type.all (Ty.avoids name) :=
      (hslots receiver List.mem_cons_self).type
    simp only [verdict, Rule.subscript_agree h.agree h.catalog hreceiver]
  | call callee arguments =>
    simp only [verdict, h.judgeCall_agree (hslots callee List.mem_cons_self) (hcallee callee rfl)]
  | _ => rfl

theorem verdict_avoids (henv : env.All fun d => d.type.avoids name) {k : Expr (Term Verdict)}
    (hname : ∀ other, k = .identifier other → other ≠ name)
    (hcast : ∀ x target, k = .cast x target → target.avoids name)
    (hslots : ∀ x ∈ k.slots, x.label.Avoids name)
    (hcallee : ∀ x, k.callee? = some x → ∀ y ∈ x.shape.slots, y.label.Avoids name) :
    (L.verdict env mark k).Avoids name := by
  have hereditary := Ty.hereditary_avoids h.ne_array h.ne_dictionary
  have htype : ∀ x ∈ k.slots, x.label.type.all (Ty.avoids name) := fun x hx => (hslots x hx).type
  cases k with
  | identifier other => exact h.judgeName_avoids henv (hname other rfl)
  | constant value => exact .typed (hereditary.constant value)
  | prefixed op x | unary op x =>
    exact .unlessFailed (.typed (hereditary.unary (htype x (List.mem_singleton.2 rfl)) op))
  | binary l op r =>
    exact .unlessFailed (.typed (hereditary.binary (htype l (by simp [Expr.slots]))
      (htype r (by simp [Expr.slots])) op))
  | assignment => exact .typed rfl
  | cast x target => exact .unlessFailed (.typed (hereditary.cast (hcast x target rfl) _))
  | ternary c t f => exact .unlessFailed (Rule.ternary_avoids (htype t (by simp [Expr.slots])))
  | parens x => exact .typed (htype x (List.mem_singleton.2 rfl))
  | arrayLiteral items =>
    exact .unlessFailed (.typed (hereditary.arrayLiteral (by simpa [Expr.slots] using htype)))
  | dictionaryLiteral pairs =>
    refine .unlessFailed (.typed (hereditary.dictionaryLiteral fun entry hentry => ?_))
    obtain ⟨kv, hkv, rfl⟩ := List.mem_map.1 hentry
    exact ⟨htype kv.1 (List.mem_flatMap.2 ⟨kv, hkv, by simp⟩),
      htype kv.2 (List.mem_flatMap.2 ⟨kv, hkv, by simp⟩)⟩
  | member receiver member =>
    exact h.close_avoids (h.judgeMember_avoids (htype receiver (List.mem_singleton.2 rfl)) _ _)
  | subscript receiver index =>
    exact h.close_avoids (.unlessFailed
      (Rule.subscript_avoids h.ne_array h.ne_dictionary (htype receiver List.mem_cons_self)))
  | call callee arguments =>
    exact h.close_avoids
      (h.judgeCall_avoids (hslots callee List.mem_cons_self) (hcallee callee rfl) arguments)
  | chain receiver =>
    have hreceiver := htype receiver (List.mem_singleton.2 rfl)
    refine h.close_avoids (.unlessFailed (.typed ?_))
    cases hx : receiver.label.type with
    | none => rfl
    | some t =>
      rw [hx] at hreceiver
      exact hereditary.unwrapped hreceiver

/-- A term that does not mention the name gets the same verdicts, and none names it. -/
theorem judge (henv : env.All fun d => d.type.avoids name) (hT : a.HoldsTerm T)
    (hwritten : a.Avoids (.expr T.id) name) :
    L'.judge env T = L.judge env T ∧ (L.judge env T).label.Avoids name ∧
      ∀ x ∈ T.shape.slots, (L.judge env x).label.Avoids name := by
  induction T using Term.induct with
  | node T ih =>
    have operand : ∀ x ∈ T.shape.slots, _ := fun x hx =>
      ih x hx (hT.operand hx) (hwritten.below (.single (hT.child hx)))
    have hslots : ∀ x ∈ (T.shape.map (L.judge env)).slots, x.label.Avoids name := by
      rw [Expr.slots_map]
      exact List.forall_mem_map.2 fun x hx => (operand x hx).2.1
    have hcallee : ∀ x, (T.shape.map (L.judge env)).callee? = some x →
        ∀ y ∈ x.shape.slots, y.label.Avoids name := by
      intro x hx
      rw [Expr.callee?_map] at hx
      obtain ⟨callee, hcallee, rfl⟩ := Option.map_eq_some_iff.1 hx
      rw [judge_shape, Expr.slots_map]
      exact List.forall_mem_map.2 (operand callee (Expr.mem_slots_of_callee? hcallee)).2.2
    have hname : ∀ other, T.shape.map (L.judge env) = .identifier other → other ≠ name := by
      rintro other hk rfl
      exact hwritten.identifier (hT.mentions (Expr.map_eq_identifier.1 hk))
    have hcast : ∀ x target, T.shape.map (L.judge env) = .cast x target → target.avoids name := by
      intro x target hk
      obtain ⟨parent, hnode⟩ := hT.exists_node
      obtain ⟨y, hshape, -⟩ := Expr.map_eq_cast.1 hk
      rw [hshape] at hnode
      exact hwritten.cast T.id _ _ _ (.refl _) hnode rfl
    refine ⟨?_, ?_, fun x hx => (operand x hx).2.1⟩
    · rw [judge_eq, judge_eq, Expr.map_congr fun x hx => (operand x hx).1,
        h.verdict_agree hname hslots hcallee]
    · rw [judge_label]
      exact h.verdict_avoids henv hname hcast hslots hcallee

/-- Walks through a program that does not mention the name cannot tell the lexicons apart. -/
theorem simulation {n : NodeId} (hwritten : a.Avoids n name) :
    Simulation L L' a n (fun d => d.type.avoids name)
      fun env env' => env' = env ∧ env.All fun d => d.type.avoids name where
  cons := by
    rintro env _ scope ⟨rfl, henv⟩ hscope
    exact ⟨rfl, .cons hscope henv⟩
  declare := by
    rintro env _ definitions ⟨rfl, henv⟩ hdefinitions
    exact ⟨rfl, henv.declare hdefinitions⟩
  declared P hP hbelow d hd := by
    obtain ⟨node, declarations, hnode, hk, x, hx, rfl⟩ := hP.exists_declaration hd
    exact hwritten.declared P.id node declarations hbelow hnode hk x hx
  judge := by
    rintro env _ T hT hbelow ⟨rfl, henv⟩
    exact (h.judge henv hT (hwritten.below hbelow)).1
  loopElement := by
    rintro env _ T hT hbelow ⟨rfl, henv⟩
    have hlabel := (h.judge henv hT (hwritten.below hbelow)).2.1.type
    exact ⟨Rule.loopElement_agree h.agree h.catalog hlabel,
      fun _ => Rule.loopElement_avoids h.ne_array h.ne_dictionary hlabel⟩

end Lexicon.Extends
end ExprTyping
