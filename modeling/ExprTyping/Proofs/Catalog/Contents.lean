import ExprTyping.Catalog.Request
import Mathlib.Data.List.Induction
import Mathlib.Data.List.Nodup
import Mathlib.Data.String.Basic

/-!
# The contents of a catalog

What a catalog knows depends on its history only through the types that the requests stored, and
of these only the last one under each name counts.

* `Catalog.Request.stores` says which types a request stores: a document stores all of its types
  or, if it is none or declares a name twice, no type.
* `Catalog.perform_fst` is the step: a request registers what it stores. `Catalog.knownType?_after`
  is the run, by induction on the history.
* `Catalog.firstRepeated?_eq_some_iff` says which name a refused document is blamed for.

Main statement: `Catalog.contents_after`.
-/

namespace ExprTyping.Catalog

variable {catalog : Catalog} {types : List KnownType} {name text : String}

/-! ## Looking up after registrations -/

theorem knownType?_register (catalog : Catalog) (k : KnownType) (name : String) :
    (catalog.register k).knownType? name =
      if k.typeName = name then some k else catalog.knownType? name := by
  split
  · next same => rw [← same, knownType?_register_self]
  · next other => rw [knownType?_register_of_ne (Ne.symm other)]

/-- The first of the types that has the name. -/
def named? (name : String) (types : List KnownType) : Option KnownType :=
  types.find? fun k => k.typeName == name

theorem named?_eq_none_iff :
    named? name types = none ↔ name ∉ types.map KnownType.typeName := by
  simp [named?, List.find?_eq_none]

theorem named?_cons (k : KnownType) :
    named? name (k :: types) = if k.typeName = name then some k else named? name types := by
  by_cases h : k.typeName = name <;> simp [named?, h]

theorem knownType?_registerAll (distinct : (types.map KnownType.typeName).Nodup) :
    (catalog.registerAll types).knownType? name =
      (named? name types).or (catalog.knownType? name) := by
  induction types generalizing catalog with
  | nil => rfl
  | cons k rest ih =>
    rw [List.map_cons, List.nodup_cons] at distinct
    show ((catalog.register k).registerAll rest).knownType? name = _
    rw [ih distinct.2, knownType?_register, named?_cons]
    split
    · next same =>
      -- no later type has the name, so the registration of `k` is the last one under it
      rw [named?_eq_none_iff.2 (same ▸ distinct.1), Option.none_or, Option.some_or]
    · rfl

theorem displaced?_types (catalog : Catalog) (k : KnownType) :
    displaced? k catalog.types = catalog.knownType? k.typeName := by
  unfold knownType?
  induction catalog.types with
  | nil => rfl
  | cons other rest ih => by_cases h : other.typeName = k.typeName <;> simp [displaced?, h, ih]

/-! ## Documents -/

theorem firstRepeated?_eq_none_iff {earlier names : List String} :
    firstRepeated? earlier names = none ↔ names.Nodup ∧ ∀ name ∈ names, name ∉ earlier := by
  induction names generalizing earlier with
  | nil => simp [firstRepeated?]
  | cons name rest ih =>
    by_cases h : name ∈ earlier
    · simp [firstRepeated?, h]
    · simp only [firstRepeated?, h, if_false, ih, List.nodup_cons, List.mem_cons]
      grind

theorem firstRepeated?_eq_some_iff {earlier names : List String} :
    firstRepeated? earlier names = some name ↔
      ∃ before rest, names = before ++ name :: rest ∧ firstRepeated? earlier before = none ∧
        (name ∈ before ∨ name ∈ earlier) := by
  induction names generalizing earlier with
  | nil => simp [firstRepeated?]
  | cons first names ih =>
    by_cases seen : first ∈ earlier
    · simp only [firstRepeated?, seen, if_true, Option.some.injEq]
      constructor
      · rintro rfl
        exact ⟨[], names, rfl, rfl, .inr seen⟩
      · rintro ⟨before, rest, split, fresh, -⟩
        cases before with
        | nil => exact (List.cons.inj split).1
        | cons other before =>
          obtain rfl := (List.cons.inj split).1
          simp [firstRepeated?, seen] at fresh
    · simp only [firstRepeated?, seen, if_false, ih]
      constructor
      · rintro ⟨before, rest, rfl, fresh, again⟩
        exact ⟨first :: before, rest, rfl, by simpa [firstRepeated?, seen] using fresh, by grind⟩
      · rintro ⟨before, rest, split, fresh, again⟩
        cases before with
        | nil =>
          obtain rfl := (List.cons.inj split).1
          simp [seen] at again
        | cons other before =>
          obtain ⟨rfl, rfl⟩ := List.cons.inj split
          exact ⟨before, rest, rfl, by simpa [firstRepeated?, seen] using fresh, by grind⟩

/-- The types of a document that declares no name twice. -/
def loadable? (text : String) : Option (List KnownType) :=
  (readDocument? text).filter fun types => (types.map KnownType.typeName).Nodup

theorem loadable?_eq_some_iff :
    loadable? text = some types ↔
      readDocument? text = some types ∧ (types.map KnownType.typeName).Nodup := by
  simp [loadable?, Option.filter_eq_some_iff]

theorem extend_eq_ok_iff {loaded : Catalog} {count : Nat} :
    catalog.extend text = .ok (loaded, count) ↔
      ∃ types, loadable? text = some types ∧ catalog.registerAll types = loaded ∧
        types.length = count := by
  simp only [loadable?_eq_some_iff]
  unfold extend
  split
  · next read => simp [read]
  · next types read =>
    simp only [read, Option.some.injEq, and_assoc, exists_eq_left']
    split
    · next first repeated =>
      have again : ¬(types.map KnownType.typeName).Nodup := fun distinct => by
        have fresh := firstRepeated?_eq_none_iff.2 ⟨distinct, fun _ _ => List.not_mem_nil⟩
        rw [fresh] at repeated
        cases repeated
      simp [again]
    · next fresh => simp [(firstRepeated?_eq_none_iff.1 fresh).1]

theorem extend_eq_invalidJson_iff :
    catalog.extend text = .error .invalidJson ↔ readDocument? text = none := by
  unfold extend
  split
  · next read => simp [read]
  · next types read => split <;> simp [read]

/-- A refused document is blamed for the first of its names that repeats an earlier one. -/
theorem extend_eq_duplicateType_iff :
    catalog.extend text = .error (.duplicateType name) ↔
      ∃ types before rest, readDocument? text = some types ∧
        types.map KnownType.typeName = before ++ name :: rest ∧ before.Nodup ∧ name ∈ before := by
  have blamed (types : List KnownType) :
      firstRepeated? [] (types.map KnownType.typeName) = some name ↔
        ∃ before rest, types.map KnownType.typeName = before ++ name :: rest ∧
          before.Nodup ∧ name ∈ before := by
    simp [firstRepeated?_eq_some_iff, firstRepeated?_eq_none_iff]
  unfold extend
  split
  · next read => simp [read]
  · next types read =>
    simp only [read, Option.some.injEq, exists_and_left, exists_eq_left', ← blamed]
    split
    · next first found => simp [found]
    · next found => simp [found]

/-! ## Requests -/

/-- The types that a request stores: a document stores all of its types or none. -/
def Request.stores : Request → List KnownType
  | .register k => [k]
  | .registerIntention i => [i.toKnownType]
  | .extend text => (loadable? text).getD []

theorem Request.nodup_stores (request : Request) :
    (request.stores.map KnownType.typeName).Nodup := by
  cases request with
  | register k => simp [stores]
  | registerIntention i => simp [stores]
  | extend text =>
    cases h : loadable? text with
    | none => simp [stores, h]
    | some types => simpa [stores, h] using (loadable?_eq_some_iff.1 h).2

theorem perform_extend_of_loadable (h : loadable? text = some types) :
    catalog.perform (.extend text) =
      (catalog.registerAll types, .extended (.ok types.length)) := by
  simp only [perform, extend_eq_ok_iff.2 ⟨types, h, rfl, rfl⟩]

/-- A document that cannot be loaded is answered with an error, and the catalog is as before. -/
theorem perform_extend_of_not_loadable (catalog : Catalog) (h : loadable? text = none) :
    ∃ error, catalog.extend text = .error error ∧
      catalog.perform (.extend text) = (catalog, .extended (.error error)) := by
  cases outcome : catalog.extend text with
  | error error => exact ⟨error, rfl, by simp only [perform, outcome]⟩
  | ok loaded =>
    obtain ⟨types, loads, -⟩ := extend_eq_ok_iff.1 outcome
    rw [h] at loads
    cases loads

theorem perform_fst (catalog : Catalog) (request : Request) :
    (catalog.perform request).1 = catalog.registerAll request.stores := by
  cases request with
  | register k => rfl
  | registerIntention i => rfl
  | extend text =>
    cases h : loadable? text with
    | none =>
      obtain ⟨error, -, same⟩ := perform_extend_of_not_loadable catalog h
      simp only [same, Request.stores, h]
      rfl
    | some types => simp only [perform_extend_of_loadable h, Request.stores, h, Option.getD_some]

/-! ## Histories -/

/-- What the last request that stored a type under this name stored there. -/
def lastStored? (history : List Request) (name : String) : Option KnownType :=
  history.reverse.findSome? fun request => named? name request.stores

theorem after_concat (history : List Request) (request : Request) :
    after (history ++ [request]) = ((after history).perform request).1 := by
  simp [after]

theorem knownType?_after (history : List Request) (name : String) :
    (after history).knownType? name = lastStored? history name := by
  induction history using List.reverseRecOn with
  | nil => rfl
  | append_singleton history request ih =>
    rw [after_concat, perform_fst, knownType?_registerAll request.nodup_stores, ih]
    simp only [lastStored?, List.reverse_append, List.reverse_singleton, List.singleton_append,
      List.findSome?_cons]
    cases named? name request.stores <;> rfl

theorem lastStored?_isSome_iff {history : List Request} :
    (lastStored? history name).isSome ↔
      ∃ request ∈ history, ∃ k ∈ request.stores, k.typeName = name := by
  simp [lastStored?, List.findSome?_isSome_iff, named?, List.find?_isSome]

/-! ## Names -/

theorem mem_typeNames :
    name ∈ catalog.typeNames ↔ (catalog.knownType? name).isSome := by
  simp [typeNames, knownType?, List.find?_isSome]

theorem typeNames_pairwise_lt (catalog : Catalog) : catalog.typeNames.Pairwise (· < ·) := by
  have sorted : catalog.typeNames.Pairwise (· ≤ ·) := by
    simpa [typeNames] using @List.pairwise_mergeSort String (fun a b => a ≤ b)
      (fun a b c => by simpa using le_trans) (fun a b => by simpa using le_total a b)
      (catalog.types.map KnownType.typeName)
  have distinct : catalog.typeNames.Nodup :=
    (List.mergeSort_perm _ _).nodup_iff.2 catalog.nodup
  exact (sorted.and distinct).imp fun h => lt_of_le_of_ne h.1 h.2

theorem length_typeNames (catalog : Catalog) : catalog.typeNames.length = catalog.size := by
  simp [typeNames, size]

/-! ## The contents after a history -/

/-- The catalog loads the text all or nothing: it answers with the number of types if the text is
a document that declares no name twice, and then knows them all beside the others; else it answers
with the reason and stays as it is. -/
structure LoadsWhole (catalog : Catalog) (text : String) : Prop where
  accepted : ∀ count, (catalog.perform (.extend text)).2 = .extended (.ok count) ↔
    ∃ types, readDocument? text = some types ∧ (types.map KnownType.typeName).Nodup ∧
      types.length = count
  stored : ∀ types, readDocument? text = some types → (types.map KnownType.typeName).Nodup →
    ∀ name, (catalog.perform (.extend text)).1.knownType? name =
      (named? name types).or (catalog.knownType? name)
  unread : (catalog.perform (.extend text)).2 = .extended (.error .invalidJson) ↔
    readDocument? text = none
  blamed : ∀ name, (catalog.perform (.extend text)).2 = .extended (.error (.duplicateType name)) ↔
    ∃ types before rest, readDocument? text = some types ∧
      types.map KnownType.typeName = before ++ name :: rest ∧ before.Nodup ∧ name ∈ before
  unchanged : ∀ error, (catalog.perform (.extend text)).2 = .extended (.error error) →
    (catalog.perform (.extend text)).1 = catalog

theorem perform_extend_snd_eq_ok_iff {count : Nat} :
    (catalog.perform (.extend text)).2 = .extended (.ok count) ↔
      ∃ types, loadable? text = some types ∧ types.length = count := by
  cases outcome : catalog.extend text with
  | ok loaded =>
    obtain ⟨types, loads, -, hcount⟩ := extend_eq_ok_iff.1 outcome
    simp [perform, outcome, loads, hcount]
  | error error =>
    cases loads : loadable? text with
    | none => simp [perform, outcome]
    | some types => simp [extend_eq_ok_iff.2 ⟨types, loads, rfl, rfl⟩] at outcome

theorem perform_extend_snd_eq_error_iff {error : CatalogError} :
    (catalog.perform (.extend text)).2 = .extended (.error error) ↔
      catalog.extend text = .error error := by
  cases outcome : catalog.extend text <;> simp [perform, outcome]

theorem loadsWhole (catalog : Catalog) (text : String) : catalog.LoadsWhole text where
  accepted count := by
    simp only [perform_extend_snd_eq_ok_iff, loadable?_eq_some_iff, and_assoc]
  stored types read distinct name := by
    rw [perform_extend_of_loadable (loadable?_eq_some_iff.2 ⟨read, distinct⟩)]
    exact knownType?_registerAll distinct
  unread := perform_extend_snd_eq_error_iff.trans extend_eq_invalidJson_iff
  blamed name := perform_extend_snd_eq_error_iff.trans extend_eq_duplicateType_iff
  unchanged error refused := by
    simp only [perform, perform_extend_snd_eq_error_iff.1 refused]

/-- After any history of requests, accepted or refused, the catalog knows of a name what the last
request that stored a type under it stored there, and that type has this name. A registration
answers with what it replaces, and documents are loaded all or nothing. The names are listed in
increasing order, and they are those of the stored types. -/
theorem contents_after (history : List Request) :
    (∀ name, (after history).knownType? name = lastStored? history name) ∧
    (∀ name, ∀ k ∈ (after history).knownType? name, k.typeName = name) ∧
    (∀ k, ((after history).perform (.register k)).2 =
      .replaced ((after history).knownType? k.typeName)) ∧
    (∀ i, ((after history).perform (.registerIntention i)).2 =
      .replaced ((after history).knownType? i.typeName)) ∧
    (∀ text, (after history).LoadsWhole text) ∧
    (after history).typeNames.Pairwise (· < ·) ∧
    (∀ name, name ∈ (after history).typeNames ↔
      ∃ request ∈ history, ∃ k ∈ request.stores, k.typeName = name) ∧
    (after history).typeNames.length = (after history).size := by
  refine ⟨knownType?_after history, fun name k => typeName_of_knownType?, fun k => ?_, fun i => ?_,
    loadsWhole (after history), typeNames_pairwise_lt _, fun name => ?_, length_typeNames _⟩
  · exact congrArg Answer.replaced (displaced?_types (after history) k)
  · exact congrArg Answer.replaced (displaced?_types (after history) i.toKnownType)
  · rw [mem_typeNames, knownType?_after, lastStored?_isSome_iff]

/-- A document that declares `C` twice is refused and stores neither `C` nor a new `A`; the one
after it stores `A` and `B`, and its `A` replaces the registered one. -/
theorem contents_after_documents :
    let repeating := "\x7b\"types\": [\x7b\"typeName\": \"A\"\x7d, \x7b\"typeName\": \"C\"\x7d, " ++
      "\x7b\"typeName\": \"C\"\x7d]\x7d"
    let distinct := "\x7b\"types\": [\x7b\"typeName\": \"B\"\x7d, " ++
      "\x7b\"typeName\": \"A\", \"supertypeName\": \"B\"\x7d]\x7d"
    let history := [Request.register ⟨"A", none, [], [], []⟩, .extend repeating, .extend distinct]
    (after history).knownType? "A" = some ⟨"A", some "B", [], [], []⟩ ∧
      (after history).knownType? "C" = none ∧ (after history).typeNames.length = 2 ∧
      ((after history).perform (.extend repeating)).2 =
        .extended (.error (.duplicateType "C")) := by
  intro repeating distinct history
  obtain ⟨known, -, -, -, loads, -, -, count⟩ := contents_after history
  have read : readDocument? repeating =
      some [⟨"A", none, [], [], []⟩, ⟨"C", none, [], [], []⟩, ⟨"C", none, [], [], []⟩] := by
    decide +kernel
  refine ⟨(known "A").trans (by decide +kernel), (known "C").trans (by decide +kernel),
    count.trans (by decide +kernel), ?_⟩
  exact ((loads repeating).blamed "C").2 ⟨_, ["A", "C"], [], read, rfl, by decide, by decide⟩

end ExprTyping.Catalog
