import ExprTyping.Proofs.Catalog.Lineage

/-!
# Subtypes respond to what their supertypes respond to

A member is looked up along the lineage of a type. The lineage of a type and that of a subtype may
enter a circle of declared supertypes at different places, so the one need not end with the other.
But every type of the one occurs in the other (`Catalog.lineage_subset`), and that is enough for the
look-up to find something (`Catalog.responds_of_isSubtype`).
-/

namespace ExprTyping.Catalog

variable {catalog : Catalog} {a b t : KnownType} {α : Type} {declared? : KnownType → Option α}

/-- A type of the lineage is what is known of its name. -/
theorem knownType?_of_mem_lineage (known : catalog.knownType? a.typeName = some a)
    (h : t ∈ catalog.lineage a) : catalog.knownType? t.typeName = some t :=
  ((climb_lineage known).reaches known t h).1

/-- The lineage of a known type lists all that is known of the lineage of a supertype, in another
order perhaps. -/
theorem lineage_subset (known : catalog.knownType? a.typeName = some a)
    (known' : catalog.knownType? b.typeName = some b)
    (h : catalog.isSubtype a.typeName b.typeName) : catalog.lineage b ⊆ catalog.lineage a := by
  intro t ht
  obtain ⟨found, reaches⟩ := (climb_lineage known').reaches known' t ht
  have way := (isSubtype_iff_reaches.1 h).trans reaches
  rcases (climb_lineage known).mem_of_reaches known way with unknown | listed
  · cases found.symm.trans unknown
  · obtain ⟨t', ht', same⟩ := List.mem_map.1 listed
    have found' := knownType?_of_mem_lineage known ht'
    rw [same] at found'
    cases found.symm.trans found'
    exact ht'

/-- The first type of the lineage that declares a match declares this one. -/
def Nearest (catalog : Catalog) (declared? : KnownType → Option α) (k : KnownType) (x : α) : Prop :=
  ∃ before t after, catalog.lineage k = before ++ t :: after ∧ declared? t = some x ∧
    ∀ s ∈ before, declared? s = none

/-- If there is something to find along the lineage of a type, there is along that of a subtype, and
what the nearest type declares there is found. -/
theorem exists_nearest (known : catalog.knownType? a.typeName = some a)
    (known' : catalog.knownType? b.typeName = some b)
    (h : catalog.isSubtype a.typeName b.typeName)
    (found : ((catalog.lineage b).findSome? declared?).isSome) :
    ∃ x, (catalog.lineage a).findSome? declared? = some x ∧ catalog.Nearest declared? a x := by
  obtain ⟨t, ht, declares⟩ := List.findSome?_isSome_iff.1 found
  have found' : ((catalog.lineage a).findSome? declared?).isSome :=
    List.findSome?_isSome_iff.2 ⟨t, lineage_subset known known' h ht, declares⟩
  obtain ⟨x, hx⟩ := Option.isSome_iff_exists.1 found'
  exact ⟨x, hx, List.findSome?_eq_some_iff.1 hx⟩

/-- A type that inherits from another one, however far up, has a property or a method for
everything that the other one has one for: the one that the nearest type of its own lineage
declares. -/
theorem responds_of_isSubtype (known : catalog.knownType? a.typeName = some a)
    (known' : catalog.knownType? b.typeName = some b)
    (h : catalog.isSubtype a.typeName b.typeName = true) :
    (∀ name isStatic, (catalog.property? name isStatic b).isSome →
      ∃ p, catalog.property? name isStatic a = some p ∧
        catalog.Nearest (fun k => k.property? name isStatic) a p) ∧
    ∀ name labels isStatic, (catalog.method? name labels isStatic b).isSome →
      ∃ m, catalog.method? name labels isStatic a = some m ∧
        catalog.Nearest (fun k => k.method? name labels isStatic) a m :=
  ⟨fun _ _ => exists_nearest known known' h, fun _ _ _ => exists_nearest known known' h⟩

/-- `Left` and `Right` declare each other, and `Entrance` declares `Left`. So the lineages of
`Entrance` and `Right` leave the circle at different places; what `Right` inherits from `Left`,
`Entrance` inherits from it, too. -/
theorem responds_of_isSubtype_circle :
    let title : Property := { name := "title", type := .string }
    let left : KnownType :=
      { typeName := "Left", supertypeName := some "Right", properties := [title] }
    let right : KnownType := { typeName := "Right", supertypeName := some "Left" }
    let entrance : KnownType := { typeName := "Entrance", supertypeName := some "Left" }
    let catalog := empty.registerAll [left, right, entrance]
    catalog.lineage right = [right, left] ∧ catalog.lineage entrance = [entrance, left, right] ∧
      catalog.property? "title" false right = some title ∧
      ∃ p, catalog.property? "title" false entrance = some p ∧
        catalog.Nearest (fun k => k.property? "title" false) entrance p := by
  intro title left right entrance catalog
  have known : catalog.knownType? entrance.typeName = some entrance := rfl
  have known' : catalog.knownType? right.typeName = some right := rfl
  have inherits : catalog.isSubtype entrance.typeName right.typeName = true := by decide +kernel
  obtain ⟨property, -⟩ := responds_of_isSubtype known known' inherits
  exact ⟨rfl, rfl, rfl, property "title" false rfl⟩

end ExprTyping.Catalog
