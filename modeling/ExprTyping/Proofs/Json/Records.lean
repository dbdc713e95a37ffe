import ExprTyping.Known.Json
import ExprTyping.Proofs.Json.Spelling

/-!
# Reading back known types

Each of the four records has its fields (`Parameter.fields`, …), and these say what spells the
record: `KnownType.Spells`, which allows every spelling of each record inside. Types have no other
spelling here than `Ty.encode`.

For each of them there is one lemma that its reader gives back what is spelled
(`Ty.decode_encode`, `Parameter.decode_of_spells`, …), all under the same condition on the budget:
that it covers the depth of the spelling.

Main statement: `KnownType.decode_of_spells`.
-/

namespace ExprTyping

variable {v : Json} {budget : Nat}

/-! ## Types -/

namespace Ty

theorem depth_record_single (form : String) (parts : Json) :
    (Json.record [(form, parts)]).depth = parts.depth + 1 := by
  simp [Json.record, Json.depth, Json.depthMembers]

mutual

theorem decode_encode (t : Ty) {budget : Nat} (enough : t.encode.depth ≤ budget) :
    decode budget t.encode = some t := by
  cases t with
  | void | bool | int | float | string | any | anyObject | errorType =>
    unfold encode Json.text decode
    rfl
  | named name =>
    cases budget with
    | zero => cases enough
    | succ budget => rfl
  | metatype subject =>
    rw [encode, depth_record_single] at enough
    obtain ⟨inner, rfl⟩ : ∃ inner, budget = inner + 1 := ⟨budget - 1, by omega⟩
    have read : decode inner subject.encode = some subject := decode_encode subject (by omega)
    simp [encode, Json.record, decode, read]
  | optional wrapped =>
    rw [encode, depth_record_single] at enough
    obtain ⟨inner, rfl⟩ : ∃ inner, budget = inner + 1 := ⟨budget - 1, by omega⟩
    have read : decode inner wrapped.encode = some wrapped := decode_encode wrapped (by omega)
    simp [encode, Json.record, decode, read]
  | generic name arguments =>
    -- the name stands two arrays and objects deep, the arguments three
    rw [encode, depth_record_single] at enough
    simp only [Json.depth, Json.depthItems, Json.text] at enough
    obtain ⟨inner, rfl⟩ : ∃ inner, budget = inner + 3 := ⟨budget - 3, by omega⟩
    have read : (encodeAll arguments).mapM (decode inner) = some arguments :=
      decode_encodeAll arguments (by omega)
    simp [encode, Json.record, Json.text, decode, read]
  | function parameters result =>
    rw [encode, depth_record_single] at enough
    simp only [Json.depth, Json.depthItems] at enough
    obtain ⟨inner, rfl⟩ : ∃ inner, budget = inner + 3 := ⟨budget - 3, by omega⟩
    have readAll : (encodeAll parameters).mapM (decode inner) = some parameters :=
      decode_encodeAll parameters (by omega)
    have read : decode (inner + 1) result.encode = some result := decode_encode result (by omega)
    simp [encode, Json.record, decode, readAll, read]

theorem decode_encodeAll (ts : List Ty) {budget : Nat}
    (enough : Json.depthItems (encodeAll ts) ≤ budget) :
    (encodeAll ts).mapM (decode budget) = some ts := by
  cases ts with
  | nil => rfl
  | cons t rest =>
    rw [encodeAll, Json.depthItems] at enough
    have read : decode budget t.encode = some t := decode_encode t (by omega)
    have readAll : (encodeAll rest).mapM (decode budget) = some rest :=
      decode_encodeAll rest (by omega)
    simp [encodeAll, read, readAll]

end

end Ty

/-! ## Parameters -/

namespace Parameter

/-- The fields of a parameter. -/
def fields (p : Parameter) : List Json.Field :=
  [.optional "label" (.text p.label) (p.label = Name.wildcardLabel),
    .needed "name" (.text p.name), .needed "type" p.type.encode]

/-- The value spells the parameter. -/
def Spells (p : Parameter) : Json → Prop := Json.SpellsRecord p.fields

theorem spells_encode (p : Parameter) : p.Spells p.encode :=
  Json.spellsRecord_record (.keep rfl (.keep rfl (.keep rfl .nil)))

theorem decode_of_spells {p : Parameter} (spells : p.Spells v) (enough : v.depth ≤ budget) :
    decode budget v = some p := by
  have distinct : ["label", "name", "type"].Nodup := by decide
  obtain ⟨inner, field, rfl, read, found⟩ := Json.record?_of_spells spells distinct enough
  obtain ⟨label, name, type, -⟩ := by simpa only [fields, List.forall_mem_cons] using found
  have readLabel : Json.withDefault Name.wildcardLabel (Json.decodeText inner) (field "label") =
    some p.label := Json.withDefault_optional label id fun _ => rfl
  have readName : Json.required (Json.decodeText inner) (field "name") = some p.name :=
    Json.required_needed name fun _ => rfl
  have readType : Json.required (Ty.decode inner) (field "type") = some p.type :=
    Json.required_needed type (Ty.decode_encode p.type)
  have readRecord : v.record? ["label", "name", "type"] = some field := read
  simp [decode, readRecord, readLabel, readName, readType]

end Parameter

/-! ## Constructors -/

namespace Constructor

/-- The fields of a constructor. -/
def fields (c : Constructor) : List Json.Field :=
  [.list "parameters" Parameter.Spells c.parameters]

/-- The value spells the constructor. -/
def Spells (c : Constructor) : Json → Prop := Json.SpellsRecord c.fields

theorem spells_encode (c : Constructor) : c.Spells c.encode :=
  Json.spellsRecord_record (.keep (Json.spellsList_map Parameter.spells_encode _) .nil)

theorem decode_of_spells {c : Constructor} (spells : c.Spells v) (enough : v.depth ≤ budget) :
    decode budget v = some c := by
  have distinct : ["parameters"].Nodup := by decide
  obtain ⟨inner, field, rfl, read, found⟩ := Json.record?_of_spells spells distinct enough
  obtain ⟨parameters, -⟩ := by simpa only [fields, List.forall_mem_cons] using found
  have readParameters : Json.withDefault [] (Json.decodeList Parameter.decode inner)
      (field "parameters") = some c.parameters :=
    Json.withDefault_list parameters fun _ _ _ => Parameter.decode_of_spells
  have readRecord : v.record? ["parameters"] = some field := read
  simp [decode, readRecord, readParameters]

end Constructor

/-! ## Properties -/

namespace Property

/-- The fields of a property. -/
def fields (p : Property) : List Json.Field :=
  [.needed "name" (.text p.name), .needed "type" p.type.encode,
    .optional "isStatic" (.bool p.isStatic) (p.isStatic = false)]

/-- The value spells the property. -/
def Spells (p : Property) : Json → Prop := Json.SpellsRecord p.fields

theorem spells_encode (p : Property) : p.Spells p.encode :=
  Json.spellsRecord_record (.keep rfl (.keep rfl (.keep rfl .nil)))

theorem decode_of_spells {p : Property} (spells : p.Spells v) (enough : v.depth ≤ budget) :
    decode budget v = some p := by
  have distinct : ["name", "type", "isStatic"].Nodup := by decide
  obtain ⟨inner, field, rfl, read, found⟩ := Json.record?_of_spells spells distinct enough
  obtain ⟨name, type, isStatic, -⟩ := by simpa only [fields, List.forall_mem_cons] using found
  have readName : Json.required (Json.decodeText inner) (field "name") = some p.name :=
    Json.required_needed name fun _ => rfl
  have readType : Json.required (Ty.decode inner) (field "type") = some p.type :=
    Json.required_needed type (Ty.decode_encode p.type)
  have readStatic : Json.withDefault false (Json.decodeBool inner) (field "isStatic") =
    some p.isStatic := Json.withDefault_optional isStatic id fun _ => rfl
  have readRecord : v.record? ["name", "type", "isStatic"] = some field := read
  simp [decode, readRecord, readName, readType, readStatic]

end Property

/-! ## Methods -/

namespace Method

/-- The fields of a method. -/
def fields (m : Method) : List Json.Field :=
  [.needed "name" (.text m.name), .list "parameters" Parameter.Spells m.parameters,
    .optional "returnType" m.returnType.encode (m.returnType = .void),
    .optional "isStatic" (.bool m.isStatic) (m.isStatic = false)]

/-- The value spells the method. -/
def Spells (m : Method) : Json → Prop := Json.SpellsRecord m.fields

theorem spells_encode (m : Method) : m.Spells m.encode :=
  Json.spellsRecord_record (.keep rfl (.keep (Json.spellsList_map Parameter.spells_encode _)
    (.keep rfl (.keep rfl .nil))))

theorem decode_of_spells {m : Method} (spells : m.Spells v) (enough : v.depth ≤ budget) :
    decode budget v = some m := by
  have distinct : ["name", "parameters", "returnType", "isStatic"].Nodup := by decide
  obtain ⟨inner, field, rfl, read, found⟩ := Json.record?_of_spells spells distinct enough
  obtain ⟨name, parameters, returnType, isStatic, -⟩ := by
    simpa only [fields, List.forall_mem_cons] using found
  have readName : Json.required (Json.decodeText inner) (field "name") = some m.name :=
    Json.required_needed name fun _ => rfl
  have readParameters : Json.withDefault [] (Json.decodeList Parameter.decode inner)
      (field "parameters") = some m.parameters :=
    Json.withDefault_list parameters fun _ _ _ => Parameter.decode_of_spells
  have readReturn : Json.withDefault .void (Ty.decode inner) (field "returnType") =
    some m.returnType := Json.withDefault_optional returnType id (Ty.decode_encode m.returnType)
  have readStatic : Json.withDefault false (Json.decodeBool inner) (field "isStatic") =
    some m.isStatic := Json.withDefault_optional isStatic id fun _ => rfl
  have readRecord : v.record? ["name", "parameters", "returnType", "isStatic"] = some field := read
  simp [decode, readRecord, readName, readParameters, readReturn, readStatic]

end Method

/-! ## Known types -/

namespace KnownType

/-- The fields of a known type. -/
def fields (k : KnownType) : List Json.Field :=
  [.needed "typeName" (.text k.typeName),
    .optional "supertypeName" (encodeSupertype k.supertypeName) (k.supertypeName = none),
    .list "constructors" Constructor.Spells k.constructors,
    .list "properties" Property.Spells k.properties,
    .list "methods" Method.Spells k.methods]

/-- The value spells the known type: in each of its records, at any depth, the members may stand in
any order, those with defaults may be missing, and unknown ones may be added. -/
def Spells (k : KnownType) : Json → Prop := Json.SpellsRecord k.fields

theorem spells_encode (k : KnownType) : k.Spells k.encode :=
  Json.spellsRecord_record (.keep rfl (.keep rfl
    (.keep (Json.spellsList_map Constructor.spells_encode _)
      (.keep (Json.spellsList_map Property.spells_encode _)
        (.keep (Json.spellsList_map Method.spells_encode _) .nil)))))

theorem decodeNullableText_encodeSupertype (supertype : Option String) :
    Json.decodeNullableText budget (encodeSupertype supertype) = some supertype := by
  cases supertype <;> rfl

theorem decode_of_spells {k : KnownType} (spells : k.Spells v) (enough : v.depth ≤ budget) :
    decode budget v = some k := by
  have distinct : ["typeName", "supertypeName", "constructors", "properties", "methods"].Nodup := by
    decide
  obtain ⟨inner, field, rfl, read, found⟩ := Json.record?_of_spells spells distinct enough
  obtain ⟨typeName, supertypeName, constructors, properties, methods, -⟩ := by
    simpa only [fields, List.forall_mem_cons] using found
  have readName : Json.required (Json.decodeText inner) (field "typeName") = some k.typeName :=
    Json.required_needed typeName fun _ => rfl
  have readSupertype : Json.withDefault none (Json.decodeNullableText inner)
      (field "supertypeName") = some k.supertypeName :=
    Json.withDefault_optional supertypeName id fun _ => decodeNullableText_encodeSupertype _
  have readConstructors : Json.withDefault [] (Json.decodeList Constructor.decode inner)
      (field "constructors") = some k.constructors :=
    Json.withDefault_list constructors fun _ _ _ => Constructor.decode_of_spells
  have readProperties : Json.withDefault [] (Json.decodeList Property.decode inner)
      (field "properties") = some k.properties :=
    Json.withDefault_list properties fun _ _ _ => Property.decode_of_spells
  have readMethods : Json.withDefault [] (Json.decodeList Method.decode inner)
      (field "methods") = some k.methods :=
    Json.withDefault_list methods fun _ _ _ => Method.decode_of_spells
  have readRecord : v.record?
      ["typeName", "supertypeName", "constructors", "properties", "methods"] = some field := read
  simp [decode, readRecord, readName, readSupertype, readConstructors, readProperties, readMethods]

end KnownType

end ExprTyping
