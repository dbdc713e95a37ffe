import ExprTyping.Catalog.Basic

/-!
# Supertypes

Each known type names at most one supertype, so the names met on the way up form a chain. The
chain may end at a name that is not known, and nothing keeps it from running in a circle.

* `Catalog.isSubtype` looks for a name on the chain, the last unknown name included. It compares
  before it looks for a repetition, and with each step there is one known type less that was not
  met (`Catalog.unmet_cons_lt`).
* `Catalog.lineage` lists the known types on the chain, each once, nearest first.
* `Catalog.property?` and `Catalog.method?` take the first match along the lineage. Constructors
  are not inherited, so `Catalog.constructor?` asks the type alone.
-/

namespace ExprTyping.Catalog

/-- The supertype that the type with this name declares. -/
def supertypeOf? (catalog : Catalog) (name : String) : Option String :=
  (catalog.knownType? name).bind (·.supertypeName)

theorem supertypeOf?_eq_some_iff {catalog : Catalog} {name supertype : String} :
    catalog.supertypeOf? name = some supertype ↔
      ∃ k, catalog.knownType? name = some k ∧ k.supertypeName = some supertype :=
  Option.bind_eq_some_iff

/-- How many known types have a name that was not met. -/
def unmet (catalog : Catalog) (met : List String) : Nat :=
  catalog.types.countP fun k => k.typeName ∉ met

theorem unmet_cons_lt {catalog : Catalog} {met : List String} {name : String} {k : KnownType}
    (known : catalog.knownType? name = some k) (fresh : name ∉ met) :
    catalog.unmet (name :: met) < catalog.unmet met := by
  obtain rfl : k.typeName = name := typeName_of_knownType? known
  obtain ⟨before, after, split⟩ := List.append_of_mem (List.mem_of_find?_eq_some known)
  have least (types : List KnownType) :
      types.countP (fun t => t.typeName ∉ k.typeName :: met) ≤
        types.countP fun t => t.typeName ∉ met :=
    List.countP_mono_left fun t _ h => by simp_all
  have left := least before
  have right := least after
  have gone : decide (k.typeName ∉ k.typeName :: met) = false := by simp
  have there : decide (k.typeName ∉ met) = true := by simpa using fresh
  simp only [unmet, split, List.countP_append, List.countP_cons, gone, there]
  grind

/-- Whether the way up from `name` comes to `ancestor` before it comes to a name that was met. -/
def climbsTo (catalog : Catalog) (met : List String) (name ancestor : String) : Bool :=
  if name = ancestor then true
  else if fresh : name ∈ met then false
  else
    match up : catalog.supertypeOf? name with
    | some supertype =>
      have : catalog.unmet (name :: met) < catalog.unmet met :=
        have ⟨_, known, _⟩ := supertypeOf?_eq_some_iff.1 up
        unmet_cons_lt known fresh
      catalog.climbsTo (name :: met) supertype ancestor
    | none => false
termination_by catalog.unmet met

/-- Whether the type called `name` is the one called `ancestor` or inherits from it. -/
def isSubtype (catalog : Catalog) (name ancestor : String) : Bool :=
  catalog.climbsTo [] name ancestor

/-- The known types from `k` upward, without those whose name was met before. -/
def lineageFrom (catalog : Catalog) : Nat → List String → KnownType → List KnownType
  | 0, _, _ => []
  | bound + 1, met, k =>
    if k.typeName ∈ met then []
    else
      k :: match k.supertypeName.bind catalog.knownType? with
        | some supertype => catalog.lineageFrom bound (k.typeName :: met) supertype
        | none => []

/-- The type and its known supertypes, nearest first. -/
def lineage (catalog : Catalog) (k : KnownType) : List KnownType :=
  catalog.lineageFrom (catalog.size + 1) [] k

/-- The nearest property with this name along the lineage. -/
def property? (catalog : Catalog) (name : String) (isStatic : Bool) (k : KnownType) :
    Option Property :=
  (catalog.lineage k).findSome? fun t => t.property? name isStatic

/-- The nearest method that the call means along the lineage. -/
def method? (catalog : Catalog) (name : String) (labels : List String) (isStatic : Bool)
    (k : KnownType) : Option Method :=
  (catalog.lineage k).findSome? fun t => t.method? name labels isStatic

/-- The first constructor of the type itself that takes these labels. -/
def constructor? (labels : List String) (k : KnownType) : Option Constructor :=
  k.constructor? labels

/-- What is known of a value's type, or of the type behind a metatype. -/
def typeOf? (catalog : Catalog) : Ty → Option KnownType
  | .named name => catalog.knownType? name
  | .metatype subject => catalog.typeOf? subject
  | _ => none

end ExprTyping.Catalog
