import ExprTyping.Vocabulary.Collection
import ExprTyping.Vocabulary.Numeric

/-!
# Types of expressions

`Ty` is the type an expression can have once it is resolved. Besides the ordinary types there is
`Ty.errorType`, the type of an expression that failed or that has a failed operand.

* `Ty.array`, `Ty.dictionary`: generic collections; `Ty.arrayElement?` and `Ty.dictionaryEntry?`
  take them apart.
* `Ty.untypedArray`, `Ty.untypedDictionary`: what a collection literal without a common element
  type has.
* `Ty.unwrapped`, `Ty.deepUnwrapped`: one level, or all levels, of optionality removed.
-/

namespace ExprTyping

/-- The type of an expression. -/
inductive Ty where
  | void
  | bool
  | int
  | float
  | string
  | any
  | anyObject
  /-- The type of an expression that could not be resolved. -/
  | errorType
  /-- A class, structure or protocol, referred to by name. -/
  | named (name : String)
  /-- The type of a type reference: `Foo.self` has type `Foo.Type`. -/
  | metatype (subject : Ty)
  | optional (wrapped : Ty)
  /-- A named type applied to arguments. -/
  | generic (name : String) (arguments : List Ty)
  /-- What a method or block is called through. -/
  | function (parameters : List Ty) (result : Ty)
  deriving Repr, Inhabited

namespace Ty

/-! ## Equality -/

mutual

/-- Whether two types are the same. -/
def beq : Ty → Ty → Bool
  | .void, .void | .bool, .bool | .int, .int | .float, .float | .string, .string
  | .any, .any | .anyObject, .anyObject | .errorType, .errorType => true
  | .named a, .named b => a == b
  | .metatype a, .metatype b => beq a b
  | .optional a, .optional b => beq a b
  | .generic a as, .generic b bs => a == b && beqList as bs
  | .function as a, .function bs b => beqList as bs && beq a b
  | _, _ => false

/-- Whether two lists of types are the same. -/
def beqList : List Ty → List Ty → Bool
  | [], [] => true
  | a :: as, b :: bs => beq a b && beqList as bs
  | _, _ => false

end

mutual

theorem eq_of_beq {a b : Ty} (h : beq a b = true) : a = b := by
  cases a <;> cases b <;> simp_all [beq]
  · exact eq_of_beq h
  · exact eq_of_beq h
  · exact eq_of_beqList h.2
  · exact ⟨eq_of_beqList h.1, eq_of_beq h.2⟩

theorem eq_of_beqList {as bs : List Ty} (h : beqList as bs = true) : as = bs := by
  cases as <;> cases bs <;> simp_all [beqList]
  exact ⟨eq_of_beq h.1, eq_of_beqList h.2⟩

end

mutual

theorem beq_self (a : Ty) : beq a a = true := by
  cases a <;> simp [beq]
  · exact beq_self _
  · exact beq_self _
  · exact beqList_self _
  · exact ⟨beqList_self _, beq_self _⟩

theorem beqList_self (as : List Ty) : beqList as as = true := by
  cases as <;> simp [beqList]
  exact ⟨beq_self _, beqList_self _⟩

end

instance : DecidableEq Ty := fun a b =>
  if h : beq a b = true then isTrue (eq_of_beq h)
  else isFalse fun e => h (e ▸ beq_self a)

/-! ## Collections -/

/-- The type of arrays with elements of type `element`. -/
def array (element : Ty) : Ty := .generic Collection.array.name [element]

/-- The type of dictionaries from `key` to `value`. -/
def dictionary (key value : Ty) : Ty := .generic Collection.dictionary.name [key, value]

/-- The type of an array literal without a common element type. -/
def untypedArray : Ty := .named Collection.legacyArray.name

/-- The type of a dictionary literal without a common key and value type. -/
def untypedDictionary : Ty := .named Collection.legacyDictionary.name

/-- The element type of an array type. -/
def arrayElement? : Ty → Option Ty
  | .generic name [element] => if name = Collection.array.name then some element else none
  | _ => none

/-- The key and value type of a dictionary type. -/
def dictionaryEntry? : Ty → Option (Ty × Ty)
  | .generic name [key, value] =>
    if name = Collection.dictionary.name then some (key, value) else none
  | _ => none

theorem arrayElement?_eq_some_iff {t e : Ty} : t.arrayElement? = some e ↔ t = array e := by
  unfold arrayElement? array
  split <;> simp_all [and_comm]

theorem dictionaryEntry?_eq_some_iff {t k v : Ty} :
    t.dictionaryEntry? = some (k, v) ↔ t = dictionary k v := by
  unfold dictionaryEntry? dictionary
  split <;> simp_all [and_comm]

/-! ## Queries -/

/-- Whether this is the type of a failed expression. -/
def isError : Ty → Bool
  | .errorType => true
  | _ => false

/-- Whether this is the type of a type reference. -/
def isMetatype : Ty → Bool
  | .metatype _ => true
  | _ => false

/-- Whether this is an optional type. -/
def isOptional : Ty → Bool
  | .optional _ => true
  | _ => false

/-- The name of a named type. -/
def name? : Ty → Option String
  | .named name => some name
  | _ => none

/-- One level of optionality removed. -/
def unwrapped : Ty → Ty
  | .optional wrapped => wrapped
  | t => t

/-- All nested levels of optionality removed. -/
def deepUnwrapped : Ty → Ty
  | .optional wrapped => wrapped.deepUnwrapped
  | t => t

/-- The number a type stands for by name. -/
def numeric? : Ty → Option Numeric
  | .int => some .int
  | .float => some .float
  | .named name => Numeric.ofName? name
  | _ => none

/-- Whether arithmetic applies to values of the type. -/
def isNumeric (t : Ty) : Bool := t.numeric?.isSome

/-- Whether bit operations apply to values of the type. -/
def isInteger (t : Ty) : Bool := t.numeric?.any Numeric.isInteger

theorem isError_iff {t : Ty} : t.isError = true ↔ t = .errorType := by
  cases t <;> simp [isError]

end Ty

end ExprTyping
