import ExprTyping.Json.Decoder
import Mathlib.Data.List.Nodup

/-!
# The spellings of a record

An object spells a record in many ways: its members may stand in any order, a field with its
default may be missing, and members that name no field may be added. `Json.SpellsRecord` says when
an object spells the record with some fields; `Json.Field` says of a field what spells its value.

Main statement: `Json.record?_of_spells` reads the fields of a record in each of its spellings. With
it `Json.required_of_found` and `Json.withDefault_of_found` decode one field each.
-/

namespace ExprTyping.Json

/-- A field of a record: its name, what spells its value, and whether it has its default. -/
structure Field where
  name : String
  spells : Json → Prop
  isDefault : Prop := False

/-- One member for each field, in order, where a field that has its default may be left out. -/
inductive Keeps : List Field → List (String × Json) → Prop
  | nil : Keeps [] []
  | keep {field : Field} {fields : List Field} {value : Json} {members : List (String × Json)}
      (spells : field.spells value) (rest : Keeps fields members) :
      Keeps (field :: fields) ((field.name, value) :: members)
  | drop {field : Field} {fields : List Field} {members : List (String × Json)}
      (default : field.isDefault) (rest : Keeps fields members) : Keeps (field :: fields) members

/-- The members that are not those of fields name no field, and all stand in any order. -/
def SpellsRecord (fields : List Field) : Json → Prop
  | .object members => ∃ kept unknown, Keeps fields kept ∧
      (∀ member ∈ unknown, member.1 ∉ fields.map Field.name) ∧
      members.Perm ((kept ++ unknown).map fun (name, value) => (some name, value))
  | _ => False

/-- An array of items that spell the values, one each. -/
def SpellsList {α : Type} (spells : α → Json → Prop) (values : List α) : Json → Prop
  | .array items => List.Forall₂ spells values items
  | _ => False

variable {field : Field} {fields : List Field} {kept members : List (String × Json)}
  {value : Json} {name : String}

/-! ## Members -/

theorem Keeps.sublist (keeps : Keeps fields kept) :
    (kept.map Prod.fst).Sublist (fields.map Field.name) := by
  induction keeps with
  | nil => exact .slnil
  | keep _ _ ih => exact ih.cons_cons _
  | drop _ _ ih => exact ih.cons _

theorem Keeps.kept_or_dropped (keeps : Keeps fields kept)
    (distinct : (fields.map Field.name).Nodup) (h : field ∈ fields) :
    (∃ value, (field.name, value) ∈ kept ∧ field.spells value) ∨
      (field.name ∉ kept.map Prod.fst ∧ field.isDefault) := by
  induction keeps with
  | nil => cases h
  | keep spells _ ih =>
    rw [List.map_cons, List.nodup_cons] at distinct
    rcases List.mem_cons.1 h with rfl | h
    · exact .inl ⟨_, List.mem_cons_self, spells⟩
    · refine (ih distinct.2 h).imp (fun ⟨value, hvalue, spells⟩ => ?_) fun ⟨gone, default⟩ => ?_
      · exact ⟨value, List.mem_cons_of_mem _ hvalue, spells⟩
      · refine ⟨fun again => ?_, default⟩
        rcases List.mem_cons.1 again with same | again
        · exact distinct.1 (List.mem_map.2 ⟨_, h, same⟩)
        · exact gone again
  | drop default rest ih =>
    rw [List.map_cons, List.nodup_cons] at distinct
    rcases List.mem_cons.1 h with rfl | h
    · exact .inr ⟨fun again => distinct.1 (rest.sublist.subset again), default⟩
    · exact ih distinct.2 h

theorem lookup_eq_some_of_mem {members : List (Option String × Json)} {key : Option String}
    (once : members.countP (·.1 == key) ≤ 1) (h : (key, value) ∈ members) :
    members.lookup key = some value := by
  induction members with
  | nil => cases h
  | cons member rest ih =>
    obtain ⟨other, first⟩ := member
    by_cases same : other = key
    · subst same
      have gone : rest.countP (·.1 == other) = 0 := by simpa using once
      rcases List.mem_cons.1 h with h | h
      · obtain ⟨-, rfl⟩ := Prod.mk.inj h
        simp
      · exact absurd (List.countP_eq_zero.1 gone _ h) (by simp)
    · have later : (key, value) ∈ rest := by
        rcases List.mem_cons.1 h with h | h
        · exact absurd (Prod.mk.inj h).1.symm same
        · exact h
      have differs : (key == other) = false := by simpa using Ne.symm same
      rw [List.lookup_cons, differs]
      exact ih (by simpa [same] using once) later

theorem depth_lt_of_mem {members : List (Option String × Json)} {key : Option String}
    (h : (key, value) ∈ members) : value.depth < (Json.object members).depth := by
  rw [depth, Nat.lt_succ_iff]
  induction members with
  | nil => cases h
  | cons member rest ih =>
    rcases List.mem_cons.1 h with rfl | h
    · exact Nat.le_max_left ..
    · exact Nat.le_trans (ih h) (Nat.le_max_right ..)

theorem depth_lt_of_mem_items {items : List Json} (h : value ∈ items) :
    value.depth < (Json.array items).depth := by
  rw [depth, Nat.lt_succ_iff]
  induction items with
  | nil => cases h
  | cons item rest ih =>
    rcases List.mem_cons.1 h with rfl | h
    · exact Nat.le_max_left ..
    · exact Nat.le_trans (ih h) (Nat.le_max_right ..)

/-! ## Reading a record -/

/-- What a reader finds of a field: a value that spells it and is within the budget, or nothing
where the field has its default. -/
def Field.Found (field : Field) (budget : Nat) (found : Option Json) : Prop :=
  (∃ value, found = some value ∧ field.spells value ∧ value.depth ≤ budget) ∨
    (found = none ∧ field.isDefault)

section

variable {kept unknown : List (String × Json)} {members : List (Option String × Json)}

theorem countP_key (foreign : ∀ member ∈ unknown, member.1 ∉ fields.map Field.name)
    (perm : members.Perm ((kept ++ unknown).map fun (name, value) => (some name, value)))
    (h : name ∈ fields.map Field.name) :
    members.countP (·.1 == some name) = (kept.map Prod.fst).count name := by
  have gone : unknown.countP (fun member => member.1 == name) = 0 :=
    List.countP_eq_zero.2 fun member hmember same =>
      foreign member hmember (by rwa [beq_iff_eq.1 same])
  rw [perm.countP_eq, List.countP_map, List.countP_append, List.count, List.countP_map]
  simpa [Function.comp_def] using gone

theorem record?_of_countP (keyed : ∀ member ∈ members, member.1.isSome)
    (once : ∀ name ∈ fields.map Field.name, members.countP (·.1 == some name) ≤ 1) :
    (Json.object members).record? (fields.map Field.name) =
      some fun name => members.lookup (some name) := by
  have allKeyed : members.all (·.1.isSome) := List.all_eq_true.2 keyed
  have allOnce : (fields.map Field.name).all
      fun name => members.countP (·.1 == some name) ≤ 1 :=
    List.all_eq_true.2 fun name h => decide_eq_true (once name h)
  rw [record?, allKeyed, allOnce]
  rfl

end

theorem record?_of_spells {v : Json} {budget : Nat} (spells : SpellsRecord fields v)
    (distinct : (fields.map Field.name).Nodup) (enough : v.depth ≤ budget) :
    ∃ inner found, budget = inner + 1 ∧ v.record? (fields.map Field.name) = some found ∧
      ∀ field ∈ fields, field.Found inner (found field.name) := by
  cases v with
  | object members =>
    obtain ⟨inner, rfl⟩ : ∃ inner, budget = inner + 1 :=
      Nat.exists_eq_succ_of_ne_zero (Nat.ne_zero_of_lt enough)
    obtain ⟨kept, unknown, keeps, foreign, perm⟩ := spells
    have once (name : String) (h : name ∈ fields.map Field.name) :
        members.countP (·.1 == some name) ≤ 1 := by
      rw [countP_key foreign perm h]
      exact List.nodup_iff_count_le_one.1 (keeps.sublist.nodup distinct) name
    have keyed : ∀ member ∈ members, member.1.isSome := by
      intro member hmember
      obtain ⟨source, -, rfl⟩ := List.mem_map.1 (perm.mem_iff.1 hmember)
      rfl
    refine ⟨inner, _, rfl, record?_of_countP keyed once, fun field hfield => ?_⟩
    have named : field.name ∈ fields.map Field.name := List.mem_map_of_mem hfield
    refine (keeps.kept_or_dropped distinct hfield).imp (fun ⟨value, hvalue, spells⟩ => ?_)
      fun ⟨gone, default⟩ => ⟨?_, default⟩
    · have there : (some field.name, value) ∈ members :=
        perm.mem_iff.2 (List.mem_map.2 ⟨_, List.mem_append_left _ hvalue, rfl⟩)
      exact ⟨value, lookup_eq_some_of_mem (once _ named) there, spells,
        Nat.lt_succ_iff.1 (Nat.lt_of_lt_of_le (depth_lt_of_mem there) enough)⟩
    · have none : members.countP (·.1 == some field.name) = 0 :=
        (countP_key foreign perm named).trans (List.count_eq_zero.2 gone)
      rw [List.lookup_eq_none_iff]
      intro member hmember
      rw [bne_iff_ne]
      exact fun same => List.countP_eq_zero.1 none member hmember (beq_iff_eq.2 same.symm)
  | _ => cases spells

/-! ## Decoding a field -/

/-- The field with this one spelling, which always has to be there. -/
def Field.needed (name : String) (value : Json) : Field where
  name := name
  spells := (· = value)

/-- The field with this one spelling, which may be left out where it has its default. -/
def Field.optional (name : String) (value : Json) (isDefault : Prop) : Field where
  name := name
  spells := (· = value)
  isDefault := isDefault

/-- The field with a list, which may be left out where that is empty. -/
def Field.list {α : Type} (name : String) (spells : α → Json → Prop) (values : List α) : Field where
  name := name
  spells := SpellsList spells values
  isDefault := values = []

section

variable {α : Type} {a default : α} {decode : Json → Option α} {found : Option Json}
  {budget : Nat}

theorem required_needed (h : (Field.needed name value).Found budget found)
    (decodes : value.depth ≤ budget → decode value = some a) :
    required decode found = some a := by
  obtain ⟨_, rfl, rfl, below⟩ | ⟨-, never⟩ := h
  · exact decodes below
  · cases never

theorem withDefault_optional {isDefault : Prop}
    (h : (Field.optional name value isDefault).Found budget found)
    (defaults : isDefault → a = default)
    (decodes : value.depth ≤ budget → decode value = some a) :
    withDefault default decode found = some a := by
  obtain ⟨_, rfl, rfl, below⟩ | ⟨rfl, isDefault⟩ := h
  · exact decodes below
  · rw [withDefault, defaults isDefault]

variable {spells : α → Json → Prop} {values : List α} {decodeItem : Decoder α}

theorem decodeList_of_spells {v : Json} (h : SpellsList spells values v)
    (enough : v.depth ≤ budget)
    (decodes : ∀ value item budget, spells value item → item.depth ≤ budget →
      decodeItem budget item = some value) :
    decodeList decodeItem budget v = some values := by
  cases v with
  | array items =>
    obtain ⟨inner, rfl⟩ : ∃ inner, budget = inner + 1 :=
      Nat.exists_eq_succ_of_ne_zero (Nat.ne_zero_of_lt enough)
    have below (item : Json) (hitem : item ∈ items) : item.depth ≤ inner :=
      Nat.lt_succ_iff.1 (Nat.lt_of_lt_of_le (depth_lt_of_mem_items hitem) enough)
    clear enough
    show items.mapM (decodeItem inner) = some values
    induction h with
    | nil => rfl
    | @cons value item values items spells _ ih =>
      rw [List.mapM_cons, decodes value item inner spells (below item List.mem_cons_self),
        ih fun item hitem => below item (List.mem_cons_of_mem _ hitem)]
      rfl
  | _ => cases h

theorem withDefault_list (h : (Field.list name spells values).Found budget found)
    (decodes : ∀ value item budget, spells value item → item.depth ≤ budget →
      decodeItem budget item = some value) :
    withDefault [] (decodeList decodeItem budget) found = some values := by
  obtain ⟨_, rfl, spelled, below⟩ | ⟨rfl, none⟩ := h
  · exact decodeList_of_spells spelled below decodes
  · rw [withDefault, show values = [] from none]

end

/-! ## The plain spelling -/

theorem spellsRecord_record {members : List (String × Json)} (keeps : Keeps fields members) :
    SpellsRecord fields (.record members) :=
  ⟨members, [], keeps, by simp, by simp [List.Perm.refl]⟩

theorem spellsList_map {α : Type} {spells : α → Json → Prop} {encode : α → Json}
    (h : ∀ value, spells value (encode value)) (values : List α) :
    SpellsList spells values (.array (values.map encode)) := by
  show List.Forall₂ spells values (values.map encode)
  induction values with
  | nil => exact .nil
  | cons value rest ih => exact .cons (h value) ih

end ExprTyping.Json
