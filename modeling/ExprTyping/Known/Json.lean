import ExprTyping.Known.Basic
import ExprTyping.Ty.Json

/-!
# Known types in JSON

Each record is written as an object with all its fields. A reader accepts what `Json.record?`
accepts: objects in any order of members, and arrays in the order of the fields. A field with a
default may be absent; null stands for an absent supertype and for nothing else.
-/

namespace ExprTyping

namespace Parameter

/-- The JSON form of a parameter. -/
def encode (p : Parameter) : Json :=
  .record [("label", .text p.label), ("name", .text p.name), ("type", p.type.encode)]

/-- Reads a parameter. -/
def decode : Json.Decoder Parameter
  | 0, _ => none
  | budget + 1, value => do
    let field ← value.record? ["label", "name", "type"]
    return {
      label := ← Json.withDefault Name.wildcardLabel (Json.decodeText budget) (field "label")
      name := ← Json.required (Json.decodeText budget) (field "name")
      type := ← Json.required (Ty.decode budget) (field "type") }

end Parameter

namespace Constructor

/-- The JSON form of a constructor. -/
def encode (c : Constructor) : Json :=
  .record [("parameters", .array (c.parameters.map Parameter.encode))]

/-- Reads a constructor. -/
def decode : Json.Decoder Constructor
  | 0, _ => none
  | budget + 1, value => do
    let field ← value.record? ["parameters"]
    return {
      parameters :=
        ← Json.withDefault [] (Json.decodeList Parameter.decode budget) (field "parameters") }

end Constructor

namespace Property

/-- The JSON form of a property. -/
def encode (p : Property) : Json :=
  .record [("name", .text p.name), ("type", p.type.encode), ("isStatic", .bool p.isStatic)]

/-- Reads a property. -/
def decode : Json.Decoder Property
  | 0, _ => none
  | budget + 1, value => do
    let field ← value.record? ["name", "type", "isStatic"]
    return {
      name := ← Json.required (Json.decodeText budget) (field "name")
      type := ← Json.required (Ty.decode budget) (field "type")
      isStatic := ← Json.withDefault false (Json.decodeBool budget) (field "isStatic") }

end Property

namespace Method

/-- The JSON form of a method. -/
def encode (m : Method) : Json :=
  .record [("name", .text m.name), ("parameters", .array (m.parameters.map Parameter.encode)),
    ("returnType", m.returnType.encode), ("isStatic", .bool m.isStatic)]

/-- Reads a method. -/
def decode : Json.Decoder Method
  | 0, _ => none
  | budget + 1, value => do
    let field ← value.record? ["name", "parameters", "returnType", "isStatic"]
    return {
      name := ← Json.required (Json.decodeText budget) (field "name")
      parameters :=
        ← Json.withDefault [] (Json.decodeList Parameter.decode budget) (field "parameters")
      returnType := ← Json.withDefault .void (Ty.decode budget) (field "returnType")
      isStatic := ← Json.withDefault false (Json.decodeBool budget) (field "isStatic") }

end Method

namespace KnownType

/-- The JSON form of a supertype name. -/
def encodeSupertype : Option String → Json
  | some name => .text name
  | none => .null

/-- The JSON form of a known type. -/
def encode (k : KnownType) : Json :=
  .record [("typeName", .text k.typeName), ("supertypeName", encodeSupertype k.supertypeName),
    ("constructors", .array (k.constructors.map Constructor.encode)),
    ("properties", .array (k.properties.map Property.encode)),
    ("methods", .array (k.methods.map Method.encode))]

/-- Reads a known type. -/
def decode : Json.Decoder KnownType
  | 0, _ => none
  | budget + 1, value => do
    let field ← value.record?
      ["typeName", "supertypeName", "constructors", "properties", "methods"]
    return {
      typeName := ← Json.required (Json.decodeText budget) (field "typeName")
      supertypeName :=
        ← Json.withDefault none (Json.decodeNullableText budget) (field "supertypeName")
      constructors :=
        ← Json.withDefault [] (Json.decodeList Constructor.decode budget) (field "constructors")
      properties :=
        ← Json.withDefault [] (Json.decodeList Property.decode budget) (field "properties")
      methods := ← Json.withDefault [] (Json.decodeList Method.decode budget) (field "methods") }

/-- The known type that a JSON text spells. -/
def ofText? (text : String) : Option KnownType :=
  (Json.ofText? text).bind (decode Json.nestingLimit)

end KnownType

end ExprTyping
