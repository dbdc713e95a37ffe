import ExprTyping.Json.Decoder
import ExprTyping.Json.Reader
import ExprTyping.Ty.Basic

/-!
# Types in JSON

A type without parts is a string, and any other type an object with one member, whose key is the
form of the type and whose value its parts: `{"optional": T}`, `{"generic": [name, [T, …]]}`,
`{"function": [[T, …], R]}`. A type without parts may also be written as the key of a null.
-/

namespace ExprTyping.Ty

/-- The types without parts, by their names in JSON. -/
def plainTypes : List (String × Ty) :=
  [("void", .void), ("bool", .bool), ("int", .int), ("float", .float), ("string", .string),
   ("any", .any), ("anyObject", .anyObject), ("errorType", .errorType)]

mutual

/-- The JSON form of a type. -/
def encode : Ty → Json
  | .void => .text "void"
  | .bool => .text "bool"
  | .int => .text "int"
  | .float => .text "float"
  | .string => .text "string"
  | .any => .text "any"
  | .anyObject => .text "anyObject"
  | .errorType => .text "errorType"
  | .named name => .record [("named", .text name)]
  | .metatype subject => .record [("metatype", encode subject)]
  | .optional wrapped => .record [("optional", encode wrapped)]
  | .generic name arguments =>
    .record [("generic", .array [.text name, .array (encodeAll arguments)])]
  | .function parameters result =>
    .record [("function", .array [.array (encodeAll parameters), encode result])]

/-- The JSON forms of several types. -/
def encodeAll : List Ty → List Json
  | [] => []
  | t :: rest => encode t :: encodeAll rest

end

/-- Reads a type. -/
def decode : Json.Decoder Ty
  | _, .string (some name) => plainTypes.lookup name
  | budget + 1, .object [(some form, parts)] =>
    match form with
    | "named" => (Json.decodeText budget parts).map .named
    | "metatype" => (decode budget parts).map .metatype
    | "optional" => (decode budget parts).map .optional
    | "generic" =>
      match budget, parts with
      | inner + 2, .array [.string (some name), .array arguments] =>
        (arguments.mapM (decode inner)).map (.generic name)
      | _, _ => none
    | "function" =>
      match budget, parts with
      | inner + 2, .array [.array parameters, result] => do
        return .function (← parameters.mapM (decode inner)) (← decode (inner + 1) result)
      | _, _ => none
    | name =>
      match parts with
      | .null => plainTypes.lookup name
      | _ => none
  | _, _ => none

/-- The type that a JSON text spells. -/
def ofText? (text : String) : Option Ty := (Json.ofText? text).bind (decode Json.nestingLimit)

theorem encodeAll_eq_map (ts : List Ty) : encodeAll ts = ts.map encode := by
  induction ts with
  | nil => rfl
  | cons t rest ih => simp [encodeAll, ih]

end ExprTyping.Ty
