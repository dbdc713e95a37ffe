import ExprTyping.Proofs.Catalog.Lineage

/-!
# What a registration leaves as it is

A registration changes what is known of one name, so it matters only for the types from which that
name can be met on the way up. The way itself depends on the catalog: `Catalog.AgreeAbove` says that
two catalogs know the same of every name on the way up in the first. Then the way up in the second
is the same (`AgreeAbove.reaches_iff`), and so are the lineage and all that is looked up along it.
Neither a circle nor an unknown name at the end is an exception; an unknown name lies on the way too.

Main statement: `Catalog.register_keeps`.
-/

namespace ExprTyping.Catalog

open Relation (ReflTransGen)

/-- Relations that agree on what is reached from here reach the same from here. -/
theorem reflTransGen_congr {α : Type} {r r' : α → α → Prop} {a b : α}
    (same : ∀ x, ReflTransGen r a x → ∀ y, r' x y ↔ r x y) :
    ReflTransGen r' a b ↔ ReflTransGen r a b := by
  constructor
  · intro h
    induction h with
    | refl => exact .refl
    | tail _ step ih => exact ih.tail ((same _ ih _).1 step)
  · intro h
    induction h with
    | refl => exact .refl
    | tail before step ih => exact ih.tail ((same _ before _).2 step)

variable {catalog catalog' : Catalog} {name supertype other : String} {k t : KnownType}

/-! ## The bound of a lineage -/

/-- The bound of a lineage makes no difference once it is greater than the number of known types
that were not met. -/
theorem lineageFrom_succ {bound : ℕ} {met : List String}
    (known : catalog.knownType? k.typeName = some k) (enough : catalog.unmet met < bound) :
    catalog.lineageFrom (bound + 1) met k = catalog.lineageFrom bound met k := by
  induction bound generalizing met k with
  | zero => exact absurd enough (Nat.not_lt_zero _)
  | succ bound ih =>
    rw [lineageFrom, lineageFrom]
    split_ifs with again
    · rfl
    · cases up : k.supertypeName.bind catalog.knownType? with
      | none => rfl
      | some supertype =>
        obtain ⟨other, -, found⟩ := Option.bind_eq_some_iff.1 up
        have less := unmet_cons_lt known again
        obtain rfl : supertype.typeName = other := typeName_of_knownType? found
        have same : catalog.lineageFrom (bound + 1) (k.typeName :: met) supertype =
            catalog.lineageFrom bound (k.typeName :: met) supertype := ih found (by omega)
        simp only [same]

theorem lineage_eq_lineageFrom (bound : ℕ) (known : catalog.knownType? k.typeName = some k)
    (enough : catalog.size < bound) : catalog.lineage k = catalog.lineageFrom bound [] k := by
  have unmet : catalog.unmet [] ≤ catalog.size := List.countP_le_length
  induction bound, (show catalog.size + 1 ≤ bound from enough) using Nat.le_induction with
  | base => rfl
  | succ bound hle ih => rw [lineageFrom_succ known (by omega), ih (by omega)]

/-! ## Catalogs that agree on the way up -/

/-- The catalogs know the same of every name on the way up from this one, the last unknown name
included. -/
def AgreeAbove (catalog catalog' : Catalog) (name : String) : Prop :=
  ∀ other, ReflTransGen catalog.Declares name other →
    catalog'.knownType? other = catalog.knownType? other

namespace AgreeAbove

variable (agree : AgreeAbove catalog catalog' name)
include agree

theorem above (declares : catalog.Declares name supertype) :
    AgreeAbove catalog catalog' supertype :=
  fun other reaches => agree other (.head declares reaches)

theorem reaches_iff : ReflTransGen catalog'.Declares name other ↔
    ReflTransGen catalog.Declares name other := by
  refine reflTransGen_congr fun met reaches next => ?_
  rw [Declares, Declares, agree met reaches]

theorem isSubtype_eq (ancestor : String) :
    catalog'.isSubtype name ancestor = catalog.isSubtype name ancestor := by
  rw [Bool.eq_iff_iff, isSubtype_iff_reaches, isSubtype_iff_reaches, agree.reaches_iff]

/-- One step up stays on the way, so the lists agree by induction on the bound. -/
theorem lineageFrom_eq (bound : ℕ) (met : List String) (known : catalog.knownType? name = some t) :
    catalog'.lineageFrom bound met t = catalog.lineageFrom bound met t := by
  induction bound generalizing name met t with
  | zero => rfl
  | succ bound ih =>
    have up : t.supertypeName.bind catalog'.knownType? =
        t.supertypeName.bind catalog.knownType? := by
      cases declared : t.supertypeName with
      | none => rfl
      | some other => exact agree other (.single ⟨t, known, declared⟩)
    rw [lineageFrom, lineageFrom, up]
    cases found : t.supertypeName.bind catalog.knownType? with
    | none => rfl
    | some super =>
      obtain ⟨other, declared, known'⟩ := Option.bind_eq_some_iff.1 found
      simp only [ih (agree.above ⟨t, known, declared⟩) _ known']

/-- The two lineages have different bounds, and either list is the one for a common greater bound. -/
theorem lineage_eq (known : catalog.knownType? name = some t) :
    catalog'.lineage t = catalog.lineage t := by
  obtain rfl : t.typeName = name := typeName_of_knownType? known
  have known' : catalog'.knownType? t.typeName = some t := (agree _ .refl).trans known
  rw [lineage_eq_lineageFrom (catalog.size + catalog'.size + 1) known (by omega),
    lineage_eq_lineageFrom (catalog.size + catalog'.size + 1) known' (by omega),
    agree.lineageFrom_eq _ _ known]

theorem property?_eq (known : catalog.knownType? name = some t) (member : String)
    (isStatic : Bool) : catalog'.property? member isStatic t = catalog.property? member isStatic t := by
  rw [property?, property?, agree.lineage_eq known]

theorem method?_eq (known : catalog.knownType? name = some t) (member : String)
    (labels : List String) (isStatic : Bool) :
    catalog'.method? member labels isStatic t = catalog.method? member labels isStatic t := by
  rw [method?, method?, agree.lineage_eq known]

end AgreeAbove

/-! ## Registration -/

theorem agreeAbove_register (apart : ¬ ReflTransGen catalog.Declares name k.typeName) :
    AgreeAbove catalog (catalog.register k) name := by
  intro other reaches
  refine knownType?_register_of_ne ?_
  rintro rfl
  exact apart reaches

/-- A registered type is known under its name. If the name is not on the way up from another known
type, neither as a known name nor as an unknown one at the end, all that the catalog says about that
type stays as it was: what is known of it and with it its constructors, its lineage, the names that
it is a subtype of, and what is found of properties and methods. -/
theorem register_keeps (known : catalog.knownType? t.typeName = some t)
    (apart : ¬ ReflTransGen catalog.Declares t.typeName k.typeName) :
    (catalog.register k).knownType? k.typeName = some k ∧
    (catalog.register k).knownType? t.typeName = some t ∧
    (catalog.register k).lineage t = catalog.lineage t ∧
    (∀ ancestor, (catalog.register k).isSubtype t.typeName ancestor =
      catalog.isSubtype t.typeName ancestor) ∧
    (∀ name isStatic, (catalog.register k).property? name isStatic t =
      catalog.property? name isStatic t) ∧
    (∀ name labels isStatic, (catalog.register k).method? name labels isStatic t =
      catalog.method? name labels isStatic t) ∧
    (∀ labels, ((catalog.register k).knownType? t.typeName).bind (constructor? labels) =
      constructor? labels t) := by
  have agree : AgreeAbove catalog (catalog.register k) t.typeName := agreeAbove_register apart
  have known' : (catalog.register k).knownType? t.typeName = some t := (agree _ .refl).trans known
  refine ⟨knownType?_register_self catalog k, known', agree.lineage_eq known, agree.isSubtype_eq,
    agree.property?_eq known, agree.method?_eq known, fun labels => ?_⟩
  rw [known', Option.bind_some]

/-- Another type is replaced while `Child` inherits from two types that declare each other. -/
theorem register_keeps_circle :
    let child : KnownType := { typeName := "Child", supertypeName := some "A" }
    let a : KnownType := { typeName := "A", supertypeName := some "B" }
    let b : KnownType := { typeName := "B", supertypeName := some "A" }
    let catalog := empty.registerAll [child, a, b, { typeName := "C", supertypeName := some "A" }]
    catalog.knownType? child.typeName = some child ∧
      ¬ ReflTransGen catalog.Declares child.typeName "C" ∧
      (catalog.register { typeName := "C", supertypeName := some "Child" }).lineage child =
        [child, a, b] := by
  intro child a b catalog
  have known : catalog.knownType? child.typeName = some child := rfl
  have apart : ¬ ReflTransGen catalog.Declares child.typeName "C" := by
    rw [← isSubtype_iff_reaches]
    decide +kernel
  obtain ⟨-, -, lineage, -⟩ := register_keeps
    (k := { typeName := "C", supertypeName := some "Child" }) known apart
  exact ⟨known, apart, lineage.trans rfl⟩

/-- An unknown name at the end of the way counts: once it is registered, the lineage goes on. -/
example :
    let child : KnownType := { typeName := "Child", supertypeName := some "Base" }
    let base : KnownType := { typeName := "Base" }
    (empty.register child).lineage child = [child] ∧
      ((empty.register child).register base).lineage child = [child, base] :=
  ⟨rfl, rfl⟩

end ExprTyping.Catalog
