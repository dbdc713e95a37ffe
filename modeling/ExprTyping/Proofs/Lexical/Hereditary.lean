import ExprTyping.Proofs.Lexical.Judge

/-!
# Conditions on what types are made of

Some conditions on types are conditions on the parts of a type: an optional, an array or a
dictionary satisfies them if what it is made of does, and the basic types do (`Ty.Hereditary`). The
rules for literals, casts and operators only take types apart and put them together, so they keep
every such condition.
-/

namespace ExprTyping

/-- A type satisfies the condition if what it is made of does. -/
structure Ty.Hereditary (condition : Ty → Bool) : Prop where
  bool : condition .bool
  int : condition .int
  float : condition .float
  string : condition .string
  any : condition .any
  anyObject : condition .anyObject
  untypedArray : condition .untypedArray
  untypedDictionary : condition .untypedDictionary
  optional : ∀ t, condition (.optional t) = condition t
  array : ∀ t, condition (.array t) = condition t
  dictionary : ∀ k v, condition (.dictionary k v) = (condition k && condition v)

namespace Ty.Hereditary

variable {condition : Ty → Bool} (h : Ty.Hereditary condition) {t : Ty}
  {type lhs rhs : Option Ty}
include h

/-! ## Types taken apart -/

theorem unwrapped (ht : condition t) : condition t.unwrapped := by
  unfold Ty.unwrapped
  split
  · rwa [h.optional] at ht
  · exact ht

theorem arrayElement? {e : Ty} (ht : condition t) (he : t.arrayElement? = some e) :
    condition e := by
  rw [arrayElement?_eq_some_iff] at he
  rwa [he, h.array] at ht

theorem dictionaryEntry? {k v : Ty} (ht : condition t) (hkv : t.dictionaryEntry? = some (k, v)) :
    condition v := by
  rw [dictionaryEntry?_eq_some_iff] at hkv
  rw [hkv, h.dictionary, Bool.and_eq_true] at ht
  exact ht.2

/-! ## Rules -/

theorem constant (value : Constant) : condition (Rule.constant value) := by
  cases value with
  | int | binary | octal | hexadecimal => exact h.int
  | float => exact h.float
  | string => exact h.string
  | bool => exact h.bool
  | nil => exact (h.optional _).trans h.anyObject
  | raw => exact h.any

theorem cast {target : Ty} (ht : condition target) (operand : Option Ty) :
    condition (Rule.cast operand target) := by
  unfold Rule.cast
  split_ifs
  · exact ht
  · rwa [h.optional]

theorem unary (ht : type.all condition) (op : Operator) :
    (Rule.unary op type).all condition := by
  unfold Rule.unary
  repeat' split
  all_goals first | rfl | exact h.bool | exact ht

omit h in
theorem common (hl : lhs.all condition) (same : Ty → Bool) :
    (Rule.common same lhs rhs).all condition := by
  unfold Rule.common
  repeat' split
  all_goals first | rfl | exact hl

theorem binary (hl : lhs.all condition) (hr : rhs.all condition) (op : Operator) :
    (Rule.binary op lhs rhs).all condition := by
  unfold Rule.binary Rule.coalesced
  repeat' split
  all_goals first | rfl | exact h.bool | exact hr | exact common hl _

theorem arrayLiteral {types : List (Option Ty)} (ht : ∀ type ∈ types, type.all condition) :
    condition (Rule.arrayLiteral types) := by
  unfold Rule.arrayLiteral
  split
  · split_ifs
    · rw [h.array]
      exact ht _ List.mem_cons_self
    · exact h.untypedArray
  · exact h.untypedArray

theorem dictionaryLiteral {types : List (Option Ty × Option Ty)}
    (ht : ∀ entry ∈ types, entry.1.all condition ∧ entry.2.all condition) :
    condition (Rule.dictionaryLiteral types) := by
  unfold Rule.dictionaryLiteral
  split
  · split_ifs
    · rw [h.dictionary, Bool.and_eq_true]
      exact ht _ List.mem_cons_self
    · exact h.untypedDictionary
  · exact h.untypedDictionary

/-- The outermost access of a chain gives an optional of the same. -/
theorem close {mark : Mark} {v : Verdict} (hv : v.note.type.all condition) :
    (mark.close v).note.type.all condition := by
  unfold Mark.close
  split
  · exact hv
  · rename_i t ht
    have ht' : v.note.type = some t := ht
    rw [ht'] at hv
    split_ifs
    · rwa [ht']
    · exact (h.optional t).trans hv
    · rwa [ht']

end Ty.Hereditary
end ExprTyping
