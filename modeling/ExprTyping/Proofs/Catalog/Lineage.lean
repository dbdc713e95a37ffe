import ExprTyping.Proofs.Catalog.Subtyping
import Mathlib.Data.List.Chain

/-!
# The lineage of a known type

`Catalog.lineage` lists known types and `Catalog.isSubtype` compares names; each guards against
circles in its own way. They agree on the known names.

`Catalog.Climb catalog met k types` says what it is to list the known types from `k` upward when
the names `met` were listed before. `Catalog.climb_lineageFrom` shows it for the function, by
induction on the bound: each listed name is one that was not met (`Catalog.unmet_cons_lt`), so the
bound outlasts the list. That every reachable known name is listed follows from the closure of the
list alone (`Catalog.Climb.mem_of_reaches`).

Main statement: `Catalog.lineage_agrees`.
-/

namespace ExprTyping.Catalog

open Relation (ReflTransGen)

variable {catalog : Catalog} {met : List String} {k supertype : KnownType}
  {types : List KnownType} {name : String}

/-- The second type is what is known of the supertype that the first declares. -/
def Inherits (catalog : Catalog) (sub super : KnownType) : Prop :=
  ∃ name, sub.supertypeName = some name ∧ catalog.knownType? name = some super

/-- The types climb from `k`, past the names that were met and without listing one of them. -/
structure Climb (catalog : Catalog) (met : List String) (k : KnownType)
    (types : List KnownType) : Prop where
  head : types.head? = some k
  fresh : ∀ t ∈ types, t.typeName ∉ met
  nodup : (types.map KnownType.typeName).Nodup
  chain : types.IsChain catalog.Inherits
  closed : ∀ t ∈ types, ∀ name, t.supertypeName = some name →
    catalog.knownType? name = none ∨ name ∈ met ∨ name ∈ types.map KnownType.typeName

/-! ## Listing a type at a time -/

theorem Climb.single (fresh : k.typeName ∉ met)
    (stops : ∀ name, k.supertypeName = some name →
      catalog.knownType? name = none ∨ name ∈ k.typeName :: met) :
    catalog.Climb met k [k] where
  head := rfl
  fresh t ht := by rwa [List.mem_singleton.1 ht]
  nodup := by simp
  chain := .singleton k
  closed t ht name hname := by
    obtain rfl := List.mem_singleton.1 ht
    simpa [or_comm] using stops name hname

theorem Climb.cons (climb : catalog.Climb (k.typeName :: met) supertype types)
    (fresh : k.typeName ∉ met) (inherits : catalog.Inherits k supertype) :
    catalog.Climb met k (k :: types) where
  head := rfl
  fresh t ht := by
    rcases List.mem_cons.1 ht with rfl | ht
    · exact fresh
    · exact fun h => climb.fresh t ht (List.mem_cons_of_mem _ h)
  nodup := by
    rw [List.map_cons, List.nodup_cons]
    refine ⟨fun again => ?_, climb.nodup⟩
    obtain ⟨t, ht, same⟩ := List.mem_map.1 again
    exact climb.fresh t ht (same ▸ List.mem_cons_self)
  chain := by
    refine .cons climb.chain fun t ht => ?_
    obtain rfl : supertype = t := Option.some.inj (climb.head.symm.trans ht)
    exact inherits
  closed t ht name hname := by
    rcases List.mem_cons.1 ht with rfl | ht
    · obtain ⟨name', hname', known⟩ := inherits
      obtain rfl : name' = name := Option.some.inj (hname'.symm.trans hname)
      have listed : supertype ∈ types := List.mem_of_mem_head? climb.head
      rw [← typeName_of_knownType? known]
      exact .inr (.inr (List.mem_cons_of_mem _ (List.mem_map_of_mem listed)))
    · rcases climb.closed t ht name hname with unknown | before | listed
      · exact .inl unknown
      · rcases List.mem_cons.1 before with rfl | before
        · exact .inr (.inr List.mem_cons_self)
        · exact .inr (.inl before)
      · exact .inr (.inr (List.mem_cons_of_mem _ listed))

theorem lineageFrom_of_mem {bound : Nat} (again : k.typeName ∈ met) :
    catalog.lineageFrom bound met k = [] := by
  cases bound with
  | zero => rfl
  | succ bound => exact if_pos again

theorem climb_lineageFrom {bound : Nat} (known : catalog.knownType? k.typeName = some k)
    (fresh : k.typeName ∉ met) (enough : catalog.unmet met < bound) :
    catalog.Climb met k (catalog.lineageFrom bound met k) := by
  induction bound generalizing met k with
  | zero => exact absurd enough (Nat.not_lt_zero _)
  | succ bound ih =>
    rw [lineageFrom, if_neg fresh]
    cases up : k.supertypeName.bind catalog.knownType? with
    | none =>
      refine .single fresh fun name hname => .inl ?_
      rwa [hname] at up
    | some supertype =>
      obtain ⟨name, hname, found⟩ := Option.bind_eq_some_iff.1 up
      have same : supertype.typeName = name := typeName_of_knownType? found
      by_cases again : supertype.typeName ∈ k.typeName :: met
      · simp only [lineageFrom_of_mem again]
        refine .single fresh fun name' hname' => .inr ?_
        obtain rfl : name = name' := Option.some.inj (hname.symm.trans hname')
        exact same ▸ again
      · have less := unmet_cons_lt known fresh
        exact (ih (same ▸ found) again (by omega)).cons fresh ⟨name, hname, found⟩

theorem climb_lineage (known : catalog.knownType? k.typeName = some k) :
    catalog.Climb [] k (catalog.lineage k) := by
  refine climb_lineageFrom known List.not_mem_nil (Nat.lt_succ_of_le ?_)
  exact List.countP_le_length

/-! ## What a climb lists -/

/-- Each listed type is what is known of its name, and that name is up the way. -/
theorem Climb.reaches (climb : catalog.Climb met k types)
    (known : catalog.knownType? k.typeName = some k) :
    ∀ t ∈ types, catalog.knownType? t.typeName = some t ∧
      ReflTransGen catalog.Declares k.typeName t.typeName := by
  refine climb.chain.induction _ types ?_ ?_
  · rintro x y ⟨name, declared, found⟩ ⟨knownX, reaches⟩
    obtain rfl := typeName_of_knownType? found
    exact ⟨found, reaches.tail ⟨x, knownX, declared⟩⟩
  · intro nonempty
    obtain rfl : types.head nonempty = k := by
      simpa [List.head?_eq_some_head nonempty] using climb.head
    exact ⟨known, .refl⟩

/-- A name that is up the way is listed, unless it is not known. -/
theorem Climb.mem_of_reaches (climb : catalog.Climb [] k types)
    (known : catalog.knownType? k.typeName = some k)
    (reaches : ReflTransGen catalog.Declares k.typeName name) :
    catalog.knownType? name = none ∨ name ∈ types.map KnownType.typeName := by
  induction reaches with
  | refl => exact .inr (List.mem_map_of_mem (List.mem_of_mem_head? climb.head))
  | @tail n m _ declares ih =>
    obtain ⟨t, found, declared⟩ := declares
    rcases ih with unknown | listed
    · rw [found] at unknown
      cases unknown
    · obtain ⟨t', ht', rfl⟩ := List.mem_map.1 listed
      obtain rfl : t' = t :=
        Option.some.inj ((climb.reaches known t' ht').1.symm.trans found)
      simpa using climb.closed t' ht' m declared

theorem Climb.mem_iff (climb : catalog.Climb [] k types)
    (known : catalog.knownType? k.typeName = some k) (named : (catalog.knownType? name).isSome) :
    name ∈ types.map KnownType.typeName ↔ catalog.isSubtype k.typeName name := by
  rw [isSubtype_iff_reaches]
  constructor
  · intro listed
    obtain ⟨t, ht, rfl⟩ := List.mem_map.1 listed
    exact (climb.reaches known t ht).2
  · intro reaches
    rcases climb.mem_of_reaches known reaches with unknown | listed
    · simp [unknown] at named
    · exact listed

/-- The lineage of a known type starts with it, names no type twice, and each of its types is what
is known of the supertype of the one before. It stops only where no supertype is declared, or one
that is unknown or listed. The known names in it are those that the type is a subtype of. -/
theorem lineage_agrees {catalog : Catalog} {k : KnownType}
    (known : catalog.knownType? k.typeName = some k) :
    (catalog.lineage k).head? = some k ∧
    ((catalog.lineage k).map KnownType.typeName).Nodup ∧
    (catalog.lineage k).IsChain catalog.Inherits ∧
    (∀ last ∈ (catalog.lineage k).getLast?, ∀ name, last.supertypeName = some name →
      catalog.knownType? name = none ∨
        name ∈ (catalog.lineage k).map KnownType.typeName) ∧
    (∀ name, (catalog.knownType? name).isSome →
      (name ∈ (catalog.lineage k).map KnownType.typeName ↔
        catalog.isSubtype k.typeName name = true)) := by
  have climb := climb_lineage known
  refine ⟨climb.head, climb.nodup, climb.chain, ?_, fun name named => climb.mem_iff known named⟩
  intro last hlast name declared
  simpa using climb.closed last (List.mem_of_getLast? hlast) name declared

/-- Two types that declare each other: each is a subtype of the other, and both lineages end. -/
theorem lineage_agrees_circle :
    let a : KnownType := { typeName := "A", supertypeName := some "B" }
    let b : KnownType := { typeName := "B", supertypeName := some "A" }
    let catalog := (empty.register a).register b
    catalog.knownType? "A" = some a ∧ catalog.lineage a = [a, b] ∧
      catalog.isSubtype "A" "B" = true := by
  intro a b catalog
  have known : catalog.knownType? a.typeName = some a := rfl
  have listed : catalog.lineage a = [a, b] := rfl
  obtain ⟨-, -, -, -, agrees⟩ := lineage_agrees known
  exact ⟨known, listed, (agrees "B" rfl).1 (by rw [listed]; decide)⟩

end ExprTyping.Catalog
