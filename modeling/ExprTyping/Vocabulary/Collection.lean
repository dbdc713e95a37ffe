/-!
# Collection names

The collection types a program can name: the generic `Array`, `Dictionary` and `Set`, and the
untyped Foundation classes. This is vocabulary only; which class inherits from which is recorded
in the catalog.
-/

namespace ExprTyping

/-- A collection type, generic or legacy (an untyped Foundation class). -/
inductive Collection where
  | array
  | dictionary
  | set
  | legacyArray
  | legacyMutableArray
  | legacyDictionary
  | legacyMutableDictionary
  | legacySet
  | legacyMutableSet
  deriving DecidableEq, Repr

namespace Collection

/-- Every collection, generic ones first. -/
def all : List Collection :=
  [.array, .dictionary, .set, .legacyArray, .legacyMutableArray, .legacyDictionary,
   .legacyMutableDictionary, .legacySet, .legacyMutableSet]

/-- The name a program writes. Names are nominal, so case matters. -/
def name : Collection → String
  | .array => "Array"
  | .dictionary => "Dictionary"
  | .set => "Set"
  | .legacyArray => "NSArray"
  | .legacyMutableArray => "NSMutableArray"
  | .legacyDictionary => "NSDictionary"
  | .legacyMutableDictionary => "NSMutableDictionary"
  | .legacySet => "NSSet"
  | .legacyMutableSet => "NSMutableSet"

/-- Number of type arguments; the legacy classes take none. -/
def arity : Collection → Nat
  | .array | .set => 1
  | .dictionary => 2
  | _ => 0

/-- Whether this is one of the untyped Foundation classes. -/
def isLegacy : Collection → Bool
  | .array | .dictionary | .set => false
  | _ => true

/-- One sentence of documentation. -/
def description : Collection → String
  | .array => "Typed array `[T]`."
  | .dictionary => "Typed dictionary `[K: V]`."
  | .set => "Typed set `Set<T>`."
  | .legacyArray => "Untyped array; elements are `AnyObject`."
  | .legacyMutableArray => "Mutable untyped array."
  | .legacyDictionary => "Untyped dictionary; values are `AnyObject`."
  | .legacyMutableDictionary => "Mutable untyped dictionary."
  | .legacySet => "Untyped set."
  | .legacyMutableSet => "Mutable untyped set."

/-- The collection called `text`, if there is one. -/
def ofName? (text : String) : Option Collection := all.find? fun c => c.name == text

theorem ofName?_name (c : Collection) : ofName? c.name = some c := by cases c <;> decide

end Collection

end ExprTyping
