import ExprTyping.Proofs.Lexical.Hereditary
import ExprTyping.Proofs.Lexical.Verdicts
import Mathlib.Tactic.Common

/-!
# Types without errors

A type is error-free if `Ty.errorType` occurs nowhere in it, at any depth. A catalog or the
intrinsics are, if all types that they mention are.

Given an error-free catalog, a rule that reports nothing makes error-free types out of resolved and
error-free ones. There are two places where failure is not reported: a property that is not found
on a callee (`Rule.property_errorFree`), and then the call finds a method or reports
(`Rule.memberCall_errorFree`); and a loop over something unresolved (`Rule.loopElement_errorFree`).
-/

namespace ExprTyping

/-! ## Types -/

namespace Ty

mutual

/-- Whether the type of failed expressions occurs nowhere in the type. -/
def errorFree : Ty → Bool
  | .errorType => false
  | .metatype t | .optional t => errorFree t
  | .generic _ arguments => errorFreeAll arguments
  | .function parameters result => errorFreeAll parameters && errorFree result
  | .void | .bool | .int | .float | .string | .any | .anyObject | .named _ => true
termination_by structural t => t

/-- Whether the type of failed expressions occurs nowhere in several types. -/
def errorFreeAll : List Ty → Bool
  | [] => true
  | t :: rest => errorFree t && errorFreeAll rest
termination_by structural ts => ts

end

variable {t : Ty}

theorem errorFreeAll_eq (ts : List Ty) : errorFreeAll ts = ts.all errorFree := by
  induction ts with
  | nil => rfl
  | cons t rest ih => rw [errorFreeAll, ih, List.all_cons]

@[simp] theorem errorFree_optional (t : Ty) : (optional t).errorFree = t.errorFree := rfl

@[simp] theorem errorFree_metatype (t : Ty) : (metatype t).errorFree = t.errorFree := rfl

@[simp] theorem errorFree_array (t : Ty) : (array t).errorFree = t.errorFree := by
  simp [array, errorFree, errorFreeAll]

@[simp] theorem errorFree_dictionary (k v : Ty) :
    (dictionary k v).errorFree = (k.errorFree && v.errorFree) := by
  simp [dictionary, errorFree, errorFreeAll]

@[simp] theorem errorFree_function (parameters : List Ty) (result : Ty) :
    (function parameters result).errorFree = (parameters.all errorFree && result.errorFree) := by
  rw [errorFree, errorFreeAll_eq]

theorem ne_errorType (h : t.errorFree) : t ≠ .errorType := by
  rintro rfl
  cases h

theorem hereditary_errorFree : Hereditary errorFree where
  bool := rfl
  int := rfl
  float := rfl
  string := rfl
  any := rfl
  anyObject := rfl
  untypedArray := rfl
  untypedDictionary := rfl
  optional := errorFree_optional
  array := errorFree_array
  dictionary := errorFree_dictionary

end Ty

/-- Whether the type noted, if there is one, is error-free. -/
def ExprNote.errorFree (note : ExprNote) : Bool := note.type.all Ty.errorFree

/-! ## Catalogs and intrinsics -/

/-- The types that the members of a type mention. -/
def KnownType.mentioned (k : KnownType) : List Ty :=
  k.constructors.flatMap Constructor.parameterTypes ++ k.properties.map (·.type) ++
    k.methods.map Method.functionType

namespace Catalog

/-- All types that the catalog mentions are error-free. -/
def ErrorFree (catalog : Catalog) : Prop := ∀ k ∈ catalog.types, k.mentioned.all Ty.errorFree

instance (catalog : Catalog) : Decidable catalog.ErrorFree :=
  inferInstanceAs (Decidable (∀ k ∈ catalog.types, k.mentioned.all Ty.errorFree = true))

variable {catalog : Catalog} {k known : KnownType} {name : String} {labels : List String}
  {isStatic : Bool} {t : Ty}

theorem mem_of_knownType? (h : catalog.knownType? name = some k) : k ∈ catalog.types :=
  List.mem_of_find?_eq_some h

theorem mem_of_typeOf? (h : catalog.typeOf? t = some k) : k ∈ catalog.types := by
  induction t using typeOf?.induct with
  | case1 name => exact mem_of_knownType? h
  | case2 subject ih => exact ih h
  | case3 t hnamed hmetatype => rw [typeOf?.eq_3 _ _ hnamed hmetatype] at h; cases h

theorem mem_of_mem_lineageFrom {bound : ℕ} {met : List String} (hk : k ∈ catalog.types)
    (h : known ∈ catalog.lineageFrom bound met k) : known ∈ catalog.types := by
  induction bound generalizing met k with
  | zero => cases h
  | succ bound ih =>
    rw [lineageFrom] at h
    split_ifs at h
    · cases h
    rcases List.mem_cons.1 h with rfl | h
    · exact hk
    split at h
    · rename_i supertype hsupertype
      obtain ⟨name, -, hname⟩ := Option.bind_eq_some_iff.1 hsupertype
      exact ih (mem_of_knownType? hname) h
    · cases h

/-- The type of a property that is found is mentioned in the catalog. -/
theorem exists_mentioned_of_property? {p : Property} (hk : k ∈ catalog.types)
    (hp : catalog.property? name isStatic k = some p) :
    ∃ known ∈ catalog.types, p.type ∈ known.mentioned := by
  obtain ⟨known, hknown, hp⟩ := List.exists_of_findSome?_eq_some hp
  have hmem : p ∈ known.properties := List.mem_of_find?_eq_some hp
  exact ⟨known, mem_of_mem_lineageFrom hk hknown,
    List.mem_append_left _ (List.mem_append_right _ (List.mem_map.2 ⟨p, hmem, rfl⟩))⟩

/-- The type of a method that is found is mentioned in the catalog. -/
theorem exists_mentioned_of_method? {m : Method} (hk : k ∈ catalog.types)
    (hm : catalog.method? name labels isStatic k = some m) :
    ∃ known ∈ catalog.types, m.functionType ∈ known.mentioned := by
  obtain ⟨known, hknown, hm⟩ := List.exists_of_findSome?_eq_some hm
  have hmem : m ∈ known.methods := List.mem_of_find?_eq_some hm
  exact ⟨known, mem_of_mem_lineageFrom hk hknown,
    List.mem_append_right _ (List.mem_map.2 ⟨m, hmem, rfl⟩)⟩

namespace ErrorFree

theorem mentioned (h : catalog.ErrorFree) (hk : k ∈ catalog.types) (ht : t ∈ k.mentioned) :
    t.errorFree := List.all_eq_true.1 (h k hk) t ht

theorem property {p : Property} (h : catalog.ErrorFree) (hk : k ∈ catalog.types)
    (hp : catalog.property? name isStatic k = some p) : p.type.errorFree := by
  obtain ⟨known, hknown, hmem⟩ := exists_mentioned_of_property? hk hp
  exact h.mentioned hknown hmem

theorem method {m : Method} (h : catalog.ErrorFree) (hk : k ∈ catalog.types)
    (hm : catalog.method? name labels isStatic k = some m) : m.functionType.errorFree := by
  obtain ⟨known, hknown, hmem⟩ := exists_mentioned_of_method? hk hm
  exact h.mentioned hknown hmem

theorem constructor {c : Constructor} (h : catalog.ErrorFree) (hk : k ∈ catalog.types)
    (hc : Catalog.constructor? labels k = some c) : c.parameterTypes.all Ty.errorFree := by
  have hmem : c ∈ k.constructors := List.mem_of_find?_eq_some hc
  refine List.all_eq_true.2 fun t ht => h.mentioned hk ?_
  exact List.mem_append_left _ (List.mem_append_left _ (List.mem_flatMap.2 ⟨c, hmem, ht⟩))

end ErrorFree
end Catalog

/-- All types that the intrinsics give to names are error-free. -/
structure Intrinsics.ErrorFree (intrinsics : Intrinsics) : Prop where
  definition : ∀ name d, intrinsics.definition? name = some d → d.type.errorFree
  implicitMember : ∀ name b, intrinsics.implicitMember? name = some b → b.type.errorFree

/-! ## Rules -/

namespace Rule

variable {catalog : Catalog} {type lhs rhs receiver index : Option Ty} {name : String}
  {labels : List String}

theorem ternary_errorFree (hl : lhs.any Ty.errorFree) (hr : rhs.any Ty.errorFree)
    (hissue : (ternary lhs rhs).issue = none) : (ternary lhs rhs).note.errorFree := by
  obtain ⟨l, rfl, hl⟩ := (Option.any_eq_true ..).1 hl
  obtain ⟨r, rfl, hr⟩ := (Option.any_eq_true ..).1 hr
  unfold ternary at hissue ⊢
  split_ifs at hissue ⊢
  · exact hl
  · cases hissue

theorem integerSubscript_errorFree {t element : Ty} (h : element.errorFree)
    (hissue : (integerSubscript t index element).issue = none) :
    (integerSubscript t index element).note.errorFree := by
  unfold integerSubscript at hissue ⊢
  split at hissue
  · exact h
  · cases hissue
  · rfl

theorem subscript_errorFree (h : receiver.all Ty.errorFree)
    (hissue : (subscript catalog receiver index).issue = none) :
    (subscript catalog receiver index).note.errorFree := by
  unfold subscript at hissue ⊢
  split at hissue
  · rfl
  · split at hissue
    · rename_i element _ he
      exact integerSubscript_errorFree (Ty.hereditary_errorFree.arrayElement? h he) hissue
    · rename_i hkv
      have hvalue := Ty.hereditary_errorFree.dictionaryEntry? h hkv
      exact hvalue
    · split_ifs at hissue ⊢
      · exact integerSubscript_errorFree rfl hissue
      · rfl
      · rfl

/-- Failure of what a loop iterates over is reported, unless this is unresolved. -/
theorem loopElement_errorFree (h : type.any Ty.errorFree)
    (hissue : (loopElement catalog type).2 = none) : (loopElement catalog type).1.errorFree := by
  obtain ⟨t, rfl, ht⟩ := (Option.any_eq_true ..).1 h
  unfold loopElement at hissue ⊢
  dsimp only at hissue ⊢
  split
  · exact Ty.hereditary_errorFree.arrayElement? ht ‹_›
  · rename_i hnone
    rw [hnone] at hissue
    dsimp only at hissue
    split_ifs at hissue ⊢ with hlegacy herror
    · rfl
    · exact absurd (Ty.isError_iff.1 herror) (Ty.ne_errorType ht)

/-- A property that is not found is reported, unless it is called. -/
theorem property_errorFree (hcatalog : catalog.ErrorFree) {t : Ty} {isCallee : Bool}
    (hissue : (property catalog t name isCallee).issue = none) :
    (property catalog t name isCallee).note.errorFree ∨
      isCallee = true ∧ (property catalog t name isCallee).note.member = none := by
  unfold property at hissue ⊢
  split at hissue
  · split_ifs at hissue ⊢
    · exact .inr ⟨‹_›, rfl⟩
    · cases hissue
  · rename_i known hknown
    split at hissue
    · exact .inl (hcatalog.property (Catalog.mem_of_typeOf? hknown) ‹_›)
    · split_ifs at hissue ⊢
      · exact .inr ⟨‹_›, rfl⟩
      · cases hissue

theorem type_of_member_property (hcatalog : catalog.ErrorFree) {t : Ty} {isCallee : Bool}
    {p : Property} (h : (property catalog t name isCallee).note.member = some (.property p)) :
    p.type.errorFree := by
  unfold property at h
  split at h
  · split_ifs at h <;> cases h
  · rename_i known hknown
    split at h
    · rename_i q hq
      cases h
      exact hcatalog.property (Catalog.mem_of_typeOf? hknown) hq
    · split_ifs at h <;> cases h

theorem constructor?_errorFree (hcatalog : catalog.ErrorFree) {subject : Ty} {c : Constructor}
    (h : constructor? catalog subject labels = .ok c) : c.parameterTypes.all Ty.errorFree := by
  unfold constructor? at h
  repeat' split at h
  all_goals cases h
  exact hcatalog.constructor (Catalog.mem_of_typeOf? ‹_›) ‹_›

theorem nameCall_errorFree (h : type.all Ty.errorFree)
    (hissue : (nameCall catalog type labels).issue = none) :
    (nameCall catalog type labels).note.errorFree := by
  unfold nameCall construction at hissue ⊢
  split at hissue
  · split at hissue
    · exact h
    · cases hissue
  · cases h
  · rfl

section

variable {callee : ExprNote}

theorem initCall_errorFree (hcatalog : catalog.ErrorFree) {subject : Ty}
    (hsubject : subject.errorFree)
    (hissue : (initCall catalog subject callee labels).issue = none) :
    (initCall catalog subject callee labels).note.errorFree ∧
      ((initCall catalog subject callee labels).callee.getD callee).errorFree := by
  unfold initCall at hissue ⊢
  split at hissue
  · refine ⟨hsubject, ?_⟩
    show (Ty.function _ subject).errorFree
    rw [Ty.errorFree_function, Bool.and_eq_true]
    exact ⟨constructor?_errorFree hcatalog ‹_›, hsubject⟩
  · cases hissue

theorem methodCall_errorFree (hcatalog : catalog.ErrorFree) {t : Ty}
    (hcallee : callee.errorFree ∨ returnedByProperty? callee.member = none)
    (hmember : ∀ p, callee.member = some (.property p) → p.type.errorFree)
    (hissue : (methodCall catalog t name callee labels).issue = none) :
    (methodCall catalog t name callee labels).note.errorFree ∧
      ((methodCall catalog t name callee labels).callee.getD callee).errorFree := by
  unfold methodCall at hissue ⊢
  split at hissue
  · rename_i result hresult
    rw [hresult] at hcallee
    obtain ⟨p, hp, parameters, htype⟩ := exists_property_of_returned hresult
    have hfunction := hmember p hp
    rw [htype, Ty.errorFree_function, Bool.and_eq_true] at hfunction
    exact ⟨hfunction.2, hcallee.resolve_right fun h => by cases h⟩
  · split at hissue
    · cases hissue
    · rename_i known hknown
      split at hissue
      · rename_i m hm
        have hfunction := hcatalog.method (Catalog.mem_of_typeOf? hknown) hm
        refine ⟨?_, hfunction⟩
        rw [Method.functionType, Ty.errorFree_function, Bool.and_eq_true] at hfunction
        exact hfunction.2
      · cases hissue

/-- A call of a member that is not reported leaves no error on itself or on its callee. This also
holds if the callee failed, unless it then means a property that holds a function. -/
theorem memberCall_errorFree (hcatalog : catalog.ErrorFree) (hreceiver : receiver.any Ty.errorFree)
    (hcallee : callee.errorFree ∨ returnedByProperty? callee.member = none)
    (hmember : ∀ p, callee.member = some (.property p) → p.type.errorFree)
    (hissue : (memberCall catalog receiver name callee labels).issue = none) :
    (memberCall catalog receiver name callee labels).note.errorFree ∧
      ((memberCall catalog receiver name callee labels).callee.getD callee).errorFree := by
  unfold memberCall at hissue ⊢
  split at hissue
  · cases hreceiver
  · cases hreceiver
  · split_ifs at hissue ⊢
    · exact initCall_errorFree hcatalog hreceiver hissue
    · exact methodCall_errorFree hcatalog hcallee hmember hissue
  · exact methodCall_errorFree hcatalog hcallee hmember hissue

end

end Rule
end ExprTyping
