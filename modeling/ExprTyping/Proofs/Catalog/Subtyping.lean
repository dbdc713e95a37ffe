import ExprTyping.Catalog.Lineage
import Mathlib.Logic.Relation

/-!
# Subtyping is reachability

`Catalog.Declares catalog name supertype` says that the type called `name` is known and declares
`supertype`, a name that may be unknown. `Catalog.isSubtype` decides the reflexive transitive
closure of this relation, whatever the catalog: the way up may end at an unknown name or run in a
circle.

The search gives up at a name that was met. By then the met names are closed under `Declares`
(`Catalog.WayUp.mem_of_reaches`), and none of them is the ancestor, because the search compares
before it goes on.

Main statement: `Catalog.isSubtype_reachability`.
-/

namespace ExprTyping.Catalog

open Relation (ReflTransGen)

variable {catalog : Catalog} {met : List String} {name supertype other ancestor : String}

/-- The type called `name` is known and declares this supertype. -/
def Declares (catalog : Catalog) (name supertype : String) : Prop :=
  ∃ k, catalog.knownType? name = some k ∧ k.supertypeName = some supertype

theorem Declares.eq (declares : catalog.Declares name supertype)
    (up : catalog.supertypeOf? name = some other) : other = supertype :=
  Option.some.inj (up.symm.trans (supertypeOf?_eq_some_iff.2 declares))

/-! ## The way up -/

/-- The names that a walk met on its way to `name`: each declares another of them or `name`. -/
def WayUp (catalog : Catalog) (met : List String) (name : String) : Prop :=
  ∀ n ∈ met, ∃ s, catalog.supertypeOf? n = some s ∧ (s = name ∨ s ∈ met)

theorem WayUp.nil : catalog.WayUp [] name := by
  intro n hn
  cases hn

theorem WayUp.cons (way : catalog.WayUp met name)
    (up : catalog.supertypeOf? name = some supertype) :
    catalog.WayUp (name :: met) supertype := by
  intro n hn
  rcases List.mem_cons.1 hn with rfl | hn
  · exact ⟨supertype, up, Or.inl rfl⟩
  · obtain ⟨s, hs, rfl | met⟩ := way n hn
    · exact ⟨s, hs, Or.inr List.mem_cons_self⟩
    · exact ⟨s, hs, Or.inr (List.mem_cons_of_mem _ met)⟩

/-- Once the way runs in a circle, it leads to met names only. -/
theorem WayUp.mem_of_reaches (way : catalog.WayUp met name) (again : name ∈ met)
    (reaches : ReflTransGen catalog.Declares name ancestor) : ancestor ∈ met := by
  induction reaches with
  | refl => exact again
  | @tail n m _ declares ih =>
    obtain ⟨s, hs, next⟩ := way n ih
    obtain rfl : s = m := declares.eq hs
    rcases next with rfl | next
    · exact again
    · exact next

/-! ## The search -/

theorem reaches_of_climbsTo (h : catalog.climbsTo met name ancestor) :
    ReflTransGen catalog.Declares name ancestor := by
  fun_induction climbsTo catalog met name ancestor with
  | case1 met => exact .refl
  | case2 met name apart again => cases h
  | case3 met name apart fresh supertype up less ih =>
    exact .head (supertypeOf?_eq_some_iff.1 up) (ih h)
  | case4 met name apart fresh stuck => cases h

/-- The search finds what is up the way, unless it met it before. -/
theorem climbsTo_of_reaches (reaches : ReflTransGen catalog.Declares name ancestor)
    (way : catalog.WayUp met name) (ahead : ancestor ∉ met) :
    catalog.climbsTo met name ancestor := by
  fun_induction climbsTo catalog met name ancestor with
  | case1 met => rfl
  | case2 met name apart again => exact absurd (way.mem_of_reaches again reaches) ahead
  | case3 met name apart fresh supertype up less ih =>
    obtain rfl | ⟨s, declares, rest⟩ := reaches.cases_head
    · exact absurd rfl apart
    · obtain rfl : supertype = s := declares.eq up
      refine ih rest (way.cons up) fun before => ?_
      rcases List.mem_cons.1 before with rfl | before
      · exact apart rfl
      · exact ahead before
  | case4 met name apart fresh stuck =>
    obtain rfl | ⟨s, declares, rest⟩ := reaches.cases_head
    · exact absurd rfl apart
    · have up := supertypeOf?_eq_some_iff.2 declares
      rw [stuck] at up
      cases up

theorem isSubtype_iff_reaches :
    catalog.isSubtype name ancestor ↔ ReflTransGen catalog.Declares name ancestor :=
  ⟨reaches_of_climbsTo, fun h => climbsTo_of_reaches h .nil List.not_mem_nil⟩

/-- One type is a subtype of another exactly if a chain of declared supertypes leads from the one to
the other. So the relation is reflexive, on unknown names too, and transitive. -/
theorem isSubtype_reachability (catalog : Catalog) :
    (∀ a b, catalog.isSubtype a b = true ↔ ReflTransGen catalog.Declares a b) ∧
    (∀ a, catalog.isSubtype a a = true) ∧
    (∀ a b c, catalog.isSubtype a b = true → catalog.isSubtype b c = true →
      catalog.isSubtype a c = true) := by
  refine ⟨fun a b => isSubtype_iff_reaches, fun a => isSubtype_iff_reaches.2 .refl, ?_⟩
  intro a b c hab hbc
  rw [isSubtype_iff_reaches] at hab hbc ⊢
  exact hab.trans hbc

/-- The types `A` and `B` declare each other, and `Child` declares a name that is not known. -/
example :
    let catalog := empty.registerAll
      [{ typeName := "A", supertypeName := some "B" },
        { typeName := "B", supertypeName := some "A" },
        { typeName := "Child", supertypeName := some "UIView" }]
    catalog.isSubtype "A" "C" = false ∧ catalog.isSubtype "Child" "UIView" = true := by
  decide +kernel

end ExprTyping.Catalog
