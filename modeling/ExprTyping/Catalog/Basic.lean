import ExprTyping.Known.Basic

/-!
# The catalog of known types

A catalog holds at most one `KnownType` for each name. Registering a type puts it in the place of
the one with its name, if there is one.

Main statements: `Catalog.knownType?_register_self` and `Catalog.knownType?_register_of_ne` say
what a look-up finds after a registration.
-/

namespace ExprTyping

/-- The known types, at most one for each name. -/
structure Catalog where
  types : List KnownType := []
  nodup : (types.map KnownType.typeName).Nodup := by decide
  deriving Repr

namespace Catalog

/-- The catalog that knows no type. -/
def empty : Catalog := {}

/-- What is known of the type with this name. -/
def knownType? (catalog : Catalog) (name : String) : Option KnownType :=
  catalog.types.find? fun k => k.typeName == name

/-- The number of known types. -/
def size (catalog : Catalog) : Nat := catalog.types.length

/-- Whether no type is known. -/
def isEmpty (catalog : Catalog) : Bool := catalog.types.isEmpty

/-- The names of the known types, in increasing order. -/
def typeNames (catalog : Catalog) : List String :=
  (catalog.types.map KnownType.typeName).mergeSort fun a b => a ≤ b

/-! ## Registration -/

/-- The list with `k` in the place of the type of its name, or at the end if there is none. -/
def insertType (k : KnownType) : List KnownType → List KnownType
  | [] => [k]
  | other :: rest =>
    if other.typeName = k.typeName then k :: rest else other :: insertType k rest

theorem mem_names_insertType {k : KnownType} {types : List KnownType} {name : String} :
    name ∈ (insertType k types).map KnownType.typeName ↔
      name = k.typeName ∨ name ∈ types.map KnownType.typeName := by
  induction types with
  | nil => simp [insertType]
  | cons other rest ih =>
    by_cases h : other.typeName = k.typeName
    · simp [insertType, h]
    · simp only [insertType, h, if_false, List.map_cons, List.mem_cons, ih]
      constructor <;> rintro (h | h | h) <;> simp [h]

theorem nodup_insertType {k : KnownType} {types : List KnownType}
    (h : (types.map KnownType.typeName).Nodup) :
    ((insertType k types).map KnownType.typeName).Nodup := by
  induction types with
  | nil => simp [insertType]
  | cons other rest ih =>
    simp only [List.map_cons, List.nodup_cons] at h
    by_cases hk : other.typeName = k.typeName
    · rw [insertType, if_pos hk, List.map_cons, List.nodup_cons, ← hk]
      exact h
    · rw [insertType, if_neg hk, List.map_cons, List.nodup_cons]
      refine ⟨fun hm => ?_, ih h.2⟩
      rcases mem_names_insertType.1 hm with e | e
      · exact hk e
      · exact h.1 e

/-- The type that `insertType` puts `k` in the place of. -/
def displaced? (k : KnownType) : List KnownType → Option KnownType
  | [] => none
  | other :: rest => if other.typeName = k.typeName then some other else displaced? k rest

/-- The catalog in which `k` is what is known of its name. -/
def register (catalog : Catalog) (k : KnownType) : Catalog :=
  ⟨insertType k catalog.types, nodup_insertType catalog.nodup⟩

/-- Registers `k`; the second component is the type that it replaces. -/
def exchange (catalog : Catalog) (k : KnownType) : Catalog × Option KnownType :=
  (catalog.register k, displaced? k catalog.types)

/-- The catalog with the types registered one after another. -/
def registerAll (catalog : Catalog) (types : List KnownType) : Catalog :=
  types.foldl register catalog

theorem knownType?_register_self (catalog : Catalog) (k : KnownType) :
    (catalog.register k).knownType? k.typeName = some k := by
  show (insertType k catalog.types).find? _ = some k
  induction catalog.types with
  | nil => simp [insertType]
  | cons other rest ih => by_cases h : other.typeName = k.typeName <;> simp [insertType, h, ih]

theorem knownType?_register_of_ne {catalog : Catalog} {k : KnownType} {name : String}
    (h : name ≠ k.typeName) :
    (catalog.register k).knownType? name = catalog.knownType? name := by
  show (insertType k catalog.types).find? _ = catalog.types.find? _
  induction catalog.types with
  | nil => simp [insertType, h.symm]
  | cons other rest ih =>
    by_cases hk : other.typeName = k.typeName
    · simp [insertType, hk, h.symm]
    · simp [insertType, hk, List.find?_cons, ih]

theorem typeName_of_knownType? {catalog : Catalog} {name : String} {k : KnownType}
    (h : catalog.knownType? name = some k) : k.typeName = name := by
  simpa using List.find?_some h

end Catalog

end ExprTyping
