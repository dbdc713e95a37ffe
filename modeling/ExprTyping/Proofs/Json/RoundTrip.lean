import ExprTyping.Proofs.Json.Records
import ExprTyping.Proofs.Json.Text

/-!
# Known types through JSON and back

A known type written as a JSON value is read back as it was, and so is each other spelling of it.
The same holds of JSON text that nests no more than a reader follows: the values that are written
for known types and types contain no numbers, so `Json.ofText?_render` applies to them.

Main statement: `KnownType.json_round_trip`.
-/

namespace ExprTyping

/-! ## Encodings can be written -/

namespace Json

theorem writableItems_map {α : Type} {encode : α → Json} (h : ∀ value, (encode value).Writable)
    (values : List α) : WritableItems (values.map encode) := by
  induction values with
  | nil => trivial
  | cons value rest ih => exact ⟨h value, ih⟩

end Json

mutual

theorem Ty.writable_encode (t : Ty) : t.encode.Writable := by
  cases t with
  | void | bool | int | float | string | any | anyObject | errorType | named => trivial
  | metatype subject => exact ⟨writable_encode subject, trivial⟩
  | optional wrapped => exact ⟨writable_encode wrapped, trivial⟩
  | generic name arguments => exact ⟨⟨trivial, writable_encodeAll arguments, trivial⟩, trivial⟩
  | function parameters result =>
    exact ⟨⟨writable_encodeAll parameters, writable_encode result, trivial⟩, trivial⟩

theorem Ty.writable_encodeAll (ts : List Ty) : Json.WritableItems (encodeAll ts) := by
  cases ts with
  | nil => trivial
  | cons t rest => exact ⟨writable_encode t, writable_encodeAll rest⟩

end

theorem Parameter.writable_encode (p : Parameter) : p.encode.Writable :=
  ⟨trivial, trivial, p.type.writable_encode, trivial⟩

theorem Constructor.writable_encode (c : Constructor) : c.encode.Writable :=
  ⟨Json.writableItems_map Parameter.writable_encode _, trivial⟩

theorem Property.writable_encode (p : Property) : p.encode.Writable :=
  ⟨trivial, p.type.writable_encode, trivial, trivial⟩

theorem Method.writable_encode (m : Method) : m.encode.Writable :=
  ⟨trivial, Json.writableItems_map Parameter.writable_encode _, m.returnType.writable_encode,
    trivial, trivial⟩

theorem KnownType.writable_encode (k : KnownType) : k.encode.Writable :=
  ⟨trivial, by cases k.supertypeName <;> trivial,
    Json.writableItems_map Constructor.writable_encode _,
    Json.writableItems_map Property.writable_encode _,
    Json.writableItems_map Method.writable_encode _, trivial⟩

/-! ## Round trips -/

/-- Reading JSON gives a known type back, from each of its spellings as a value and as a text that
nests no deeper than the limit; what is written for it is one of them. The same holds of a type. -/
theorem KnownType.json_round_trip (k : KnownType) (t : Ty) :
    (k.Spells k.encode ∧
      (∀ v, k.Spells v → Json.decodeValue decode v = some k) ∧
      (∀ v text, k.Spells v → Json.ofText? text = some v → v.depth ≤ Json.nestingLimit →
        ofText? text = some k) ∧
      (k.encode.depth ≤ Json.nestingLimit → ofText? k.encode.render = some k)) ∧
    Json.decodeValue Ty.decode t.encode = some t ∧
      (∀ text, Json.ofText? text = some t.encode → t.encode.depth ≤ Json.nestingLimit →
        Ty.ofText? text = some t) ∧
      (t.encode.depth ≤ Json.nestingLimit → Ty.ofText? t.encode.render = some t) := by
  have readText (v : Json) (text : String) (spells : k.Spells v) (read : Json.ofText? text = some v)
      (shallow : v.depth ≤ Json.nestingLimit) : ofText? text = some k := by
    rw [ofText?, read]
    exact decode_of_spells spells shallow
  have readType (text : String) (read : Json.ofText? text = some t.encode)
      (shallow : t.encode.depth ≤ Json.nestingLimit) : Ty.ofText? text = some t := by
    rw [Ty.ofText?, read]
    exact Ty.decode_encode t shallow
  refine ⟨⟨k.spells_encode, fun v spells => decode_of_spells spells le_rfl, readText, ?_⟩,
    Ty.decode_encode t le_rfl, readType, readType _ (Json.ofText?_render t.writable_encode)⟩
  exact readText _ _ k.spells_encode (Json.ofText?_render k.writable_encode)

/-- A type with a method, spelled with members in another order, without their defaults and with
one that is not known. -/
theorem KnownType.json_round_trip_respelled :
    let k : KnownType := ⟨"A", none, [], [], [⟨"f", [⟨"_", "x", .optional .int⟩], .void, false⟩]⟩
    let text := "\x7b\"methods\":[\x7b\"since\":[1],\"parameters\":[\x7b\"type\":" ++
      "\x7b\"optional\":\"int\"\x7d,\"name\":\"x\"\x7d],\"name\":\"f\"\x7d]," ++
      "\"typeName\":\"A\"\x7d"
    ofText? text = some k := by
  intro k text
  let parameter := Json.record [("type", .record [("optional", .text "int")]), ("name", .text "x")]
  let method := Json.record [("since", .array [.number "1"]), ("parameters", .array [parameter]),
    ("name", .text "f")]
  let value := Json.record [("methods", .array [method]), ("typeName", .text "A")]
  have spellsParameter : Parameter.Spells ⟨"_", "x", .optional .int⟩ parameter :=
    ⟨[("name", .text "x"), ("type", .record [("optional", .text "int")])], [],
      .drop rfl (.keep rfl (.keep rfl .nil)), by simp, .swap ..⟩
  have spellsMethod : Method.Spells ⟨"f", [⟨"_", "x", .optional .int⟩], .void, false⟩ method :=
    ⟨[("name", .text "f"), ("parameters", .array [parameter])], [("since", .array [.number "1"])],
      .keep rfl (.keep (.cons spellsParameter .nil) (.drop rfl (.drop rfl .nil))), by decide,
      (List.reverse_perm _).symm⟩
  have spells : k.Spells value :=
    ⟨[("typeName", .text "A"), ("methods", .array [method])], [],
      .keep rfl (.drop rfl (.drop rfl (.drop rfl (.keep (.cons spellsMethod .nil) .nil)))), by simp,
      .swap ..⟩
  have one : (Json.number "1").Writable := by
    show Json.number? _ = _
    decide
  have writable : value.Writable :=
    ⟨⟨⟨⟨one, trivial⟩, ⟨⟨⟨trivial, trivial⟩, trivial, trivial⟩, trivial⟩, trivial, trivial⟩,
      trivial⟩, trivial, trivial⟩
  have written : value.render = text := by decide +kernel
  have read : Json.ofText? text = some value := written ▸ Json.ofText?_render writable
  exact (json_round_trip k .int).1.2.2.1 value text spells read (by decide)

end ExprTyping
