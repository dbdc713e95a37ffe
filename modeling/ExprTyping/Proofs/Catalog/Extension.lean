import ExprTyping.Proofs.Catalog.Registration
import ExprTyping.Proofs.Lexical.ErrorFree
import ExprTyping.Typing.Intrinsics

/-!
# Catalogs that differ in one name

Two catalogs that know the same of every other name answer alike, as long as nobody asks for the
one name. `Ty.avoids` says that a type does not name it and `Catalog.Avoids` that a catalog leads
from no other name to it: none of its members' types names it and no supertype is called so. Then a
walk up the supertypes that starts elsewhere never comes to the name
(`Catalog.AgreeBut.agreeAbove`), and what is looked up on the way is the same.

An intrinsic provider for a method body asks the catalog too (`Provider.intrinsics_agree`).
-/

namespace ExprTyping

/-! ## Types that do not name something -/

namespace Ty

mutual

/-- Whether the named type of this name occurs nowhere in the type. -/
def avoids (name : String) : Ty → Bool
  | .named other => other != name
  | .metatype t | .optional t => avoids name t
  | .generic _ arguments => avoidsAll name arguments
  | .function parameters result => avoidsAll name parameters && avoids name result
  | .void | .bool | .int | .float | .string | .any | .anyObject | .errorType => true
termination_by structural t => t

/-- Whether the named type of this name occurs nowhere in several types. -/
def avoidsAll (name : String) : List Ty → Bool
  | [] => true
  | t :: rest => avoids name t && avoidsAll name rest
termination_by structural ts => ts

end

variable {t : Ty} {name : String}

@[simp] theorem avoids_named {other : String} :
    (named other).avoids name = true ↔ other ≠ name := by
  simp [avoids]

@[simp] theorem avoids_optional (t : Ty) : (optional t).avoids name = t.avoids name := rfl

@[simp] theorem avoids_metatype (t : Ty) : (metatype t).avoids name = t.avoids name := rfl

@[simp] theorem avoids_array (t : Ty) : (array t).avoids name = t.avoids name := by
  simp [array, avoids, avoidsAll]

@[simp] theorem avoids_dictionary (k v : Ty) :
    (dictionary k v).avoids name = (k.avoids name && v.avoids name) := by
  simp [dictionary, avoids, avoidsAll]

theorem avoids_result {parameters : List Ty} {result : Ty}
    (h : (function parameters result).avoids name) : result.avoids name := by
  rw [avoids, Bool.and_eq_true] at h
  exact h.2

/-- The classes of untyped literals apart, no name comes into a type that is taken apart or put
together. -/
theorem hereditary_avoids (harray : name ≠ Collection.legacyArray.name)
    (hdictionary : name ≠ Collection.legacyDictionary.name) : Hereditary (avoids name) where
  bool := rfl
  int := rfl
  float := rfl
  string := rfl
  any := rfl
  anyObject := rfl
  untypedArray := avoids_named.2 harray.symm
  untypedDictionary := avoids_named.2 hdictionary.symm
  optional := avoids_optional
  array := avoids_array
  dictionary := avoids_dictionary

end Ty

/-! ## Catalogs -/

namespace Catalog

open Relation (ReflTransGen)

/-- No type in the catalog names `name`, and no supertype has that name. -/
def Avoids (catalog : Catalog) (name : String) : Prop :=
  ∀ k ∈ catalog.types, k.mentioned.all (Ty.avoids name) ∧ k.supertypeName ≠ some name

instance (catalog : Catalog) (name : String) : Decidable (catalog.Avoids name) :=
  inferInstanceAs (Decidable (∀ k ∈ catalog.types,
    k.mentioned.all (Ty.avoids name) = true ∧ k.supertypeName ≠ some name))

/-- The catalogs know the same of every name but this one. -/
def AgreeBut (name : String) (catalog catalog' : Catalog) : Prop :=
  ∀ other, other ≠ name → catalog'.knownType? other = catalog.knownType? other

theorem agreeBut_register (catalog : Catalog) (k : KnownType) :
    AgreeBut k.typeName catalog (catalog.register k) :=
  fun _ => knownType?_register_of_ne

variable {catalog catalog' : Catalog} {name other : String} {k : KnownType} {t : Ty}
  {labels : List String} {isStatic : Bool}

namespace Avoids

theorem mentioned (avoids : catalog.Avoids name) (hk : k ∈ catalog.types) (ht : t ∈ k.mentioned) :
    t.avoids name := List.all_eq_true.1 (avoids k hk).1 t ht

theorem ne_supertype (avoids : catalog.Avoids name) (hk : k ∈ catalog.types)
    (h : k.supertypeName = some other) : other ≠ name := by
  rintro rfl
  exact (avoids k hk).2 h

theorem property {p : Property} (avoids : catalog.Avoids name) (hk : k ∈ catalog.types)
    (hp : catalog.property? other isStatic k = some p) : p.type.avoids name := by
  obtain ⟨known, hknown, hmem⟩ := exists_mentioned_of_property? hk hp
  exact avoids.mentioned hknown hmem

theorem method {m : Method} (avoids : catalog.Avoids name) (hk : k ∈ catalog.types)
    (hm : catalog.method? other labels isStatic k = some m) : m.returnType.avoids name := by
  obtain ⟨known, hknown, hmem⟩ := exists_mentioned_of_method? hk hm
  exact Ty.avoids_result (avoids.mentioned hknown hmem)

end Avoids

/-! ## Supertypes -/

/-- The way up from another name does not come to this one. -/
theorem AgreeBut.agreeAbove (agree : AgreeBut name catalog catalog') (avoids : catalog.Avoids name)
    (h : other ≠ name) : AgreeAbove catalog catalog' other := by
  intro met reaches
  suffices apart : met ≠ name from agree met apart
  induction reaches with
  | refl => exact h
  | tail _ declares _ =>
    obtain ⟨k, known, declared⟩ := declares
    exact avoids.ne_supertype (mem_of_knownType? known) declared

theorem typeOf?_agree (agree : AgreeBut name catalog catalog') (h : t.avoids name) :
    catalog'.typeOf? t = catalog.typeOf? t := by
  induction t using typeOf?.induct with
  | case1 other => exact agree other (Ty.avoids_named.1 h)
  | case2 subject ih => exact ih h
  | case3 t hnamed hmetatype =>
    rw [typeOf?.eq_3 _ _ hnamed hmetatype, typeOf?.eq_3 _ _ hnamed hmetatype]

/-- What is known of a type that does not name `name` is known under another name. -/
theorem exists_knownType?_of_typeOf? (h : t.avoids name) (found : catalog.typeOf? t = some k) :
    ∃ other, other ≠ name ∧ catalog.knownType? other = some k := by
  induction t using typeOf?.induct with
  | case1 other => exact ⟨other, Ty.avoids_named.1 h, found⟩
  | case2 subject ih => exact ih h found
  | case3 t hnamed hmetatype => rw [typeOf?.eq_3 _ _ hnamed hmetatype] at found; cases found

end Catalog

/-! ## Intrinsics -/

/-- No type that the intrinsics give to a name names `name`. -/
structure Intrinsics.Avoids (intrinsics : Intrinsics) (name : String) : Prop where
  definition : ∀ other d, intrinsics.definition? other = some d → d.type.avoids name
  implicitMember : ∀ other b, intrinsics.implicitMember? other = some b → b.type.avoids name

/-- Where the names come from that need no declaration. -/
inductive Provider where
  | none
  | globals (definitions : List Definition)
  | methodBody (owner : String) (isStatic : Bool)

namespace Provider

/-- The names, where the catalog is asked about the owner of a method body. -/
def intrinsics (catalog : Catalog) : Provider → Intrinsics
  | .none => .none
  | .globals definitions => .globals definitions
  | .methodBody owner isStatic => .methodBody catalog owner isStatic

/-- The provider does not name `name`. -/
def Avoids (name : String) : Provider → Prop
  | .none => True
  | .globals definitions => ∀ d ∈ definitions, d.type.avoids name
  | .methodBody owner _ => owner ≠ name

variable {catalog catalog' : Catalog} {name owner other : String} {isStatic : Bool}
  {provider : Provider}

theorem receiverType_avoids (h : other ≠ name) (isStatic : Bool) :
    (Intrinsics.receiverType isStatic other).avoids name := by
  cases isStatic <;> simpa [Intrinsics.receiverType] using h

/-- The provider gives the same names over two catalogs that know the same of every other name. -/
theorem intrinsics_agree (agree : Catalog.AgreeBut name catalog catalog')
    (avoids : catalog.Avoids name) (h : provider.Avoids name) :
    provider.intrinsics catalog' = provider.intrinsics catalog := by
  cases provider with
  | none => rfl
  | globals definitions => rfl
  | methodBody owner isStatic =>
    have known : catalog'.knownType? owner = catalog.knownType? owner := agree owner h
    have supertype : catalog'.supertypeOf? owner = catalog.supertypeOf? owner := by
      rw [Catalog.supertypeOf?, Catalog.supertypeOf?, known]
    have member (property : String) : (do
        let k ← catalog'.knownType? owner
        let p ← catalog'.property? property false k
        return Binding.implicitMember owner p) = (do
        let k ← catalog.knownType? owner
        let p ← catalog.property? property false k
        return Binding.implicitMember owner p) := by
      rw [known]
      cases found : catalog.knownType? owner with
      | none => rfl
      | some k =>
        simp only [Option.bind_eq_bind, Option.bind_some,
          (agree.agreeAbove avoids h).property?_eq found]
    simp only [intrinsics, Intrinsics.methodBody, supertype, member]

theorem intrinsics_avoids (avoids : catalog.Avoids name) (h : provider.Avoids name) :
    (provider.intrinsics catalog).Avoids name := by
  cases provider with
  | none => exact ⟨fun _ _ hd => (nomatch hd), fun _ _ hb => (nomatch hb)⟩
  | globals definitions =>
    refine ⟨fun other d hd => ?_, fun _ _ hb => (nomatch hb)⟩
    have declared : (definitions.foldl Scope.record {}).All fun d => d.type.avoids name :=
      .recordAll .empty h
    exact declared d (List.mem_of_find?_eq_some hd)
  | methodBody owner isStatic =>
    refine ⟨fun other d hd => ?_, fun other b hb => ?_⟩
    · simp only [intrinsics, Intrinsics.methodBody] at hd
      split_ifs at hd
      · cases hd
        exact receiverType_avoids h isStatic
      · obtain ⟨supertype, declared, rfl⟩ := Option.map_eq_some_iff.1 hd
        obtain ⟨k, known, declared⟩ := Option.bind_eq_some_iff.1 declared
        exact receiverType_avoids
          (avoids.ne_supertype (Catalog.mem_of_knownType? known) declared) isStatic
    · simp only [intrinsics, Intrinsics.methodBody] at hb
      split_ifs at hb
      obtain ⟨k, known, hb⟩ := Option.bind_eq_some_iff.1 hb
      obtain ⟨p, hp, hb⟩ := Option.bind_eq_some_iff.1 hb
      cases hb
      exact avoids.property (Catalog.mem_of_knownType? known) hp

end Provider

end ExprTyping
