import ExprTyping.Json.Basic

/-!
# Decoding JSON values

Readers of values from JSON. Each reader gets a budget: how many more arrays and objects may be
nested around what it reads. Values that a reader skips, such as a member it does not know, cost
nothing.

A record has one of two spellings (`Json.record?`): an object, where unknown members are skipped
and a known one may occur once; or an array with the fields in order, where fields at the end may
be missing.
-/

namespace ExprTyping.Json

/-- A reader of values of type `α`, given the number of arrays and objects that may still be
nested. -/
abbrev Decoder (α : Type) := Nat → Json → Option α

/-- How many arrays and objects a document may nest. -/
def nestingLimit : Nat := 127

/-- Reads a string. -/
def decodeText : Decoder String
  | _, .string content => content
  | _, _ => none

/-- Reads a truth value. -/
def decodeBool : Decoder Bool
  | _, .bool value => some value
  | _, _ => none

/-- Reads a string, or null for an absent one. -/
def decodeNullableText : Decoder (Option String)
  | _, .null => some none
  | _, .string content => content.map some
  | _, _ => none

/-- Reads an array of values. -/
def decodeList {α : Type} (decodeItem : Decoder α) : Decoder (List α)
  | budget + 1, .array items => items.mapM (decodeItem budget)
  | _, _ => none

/-- The fields of a record with the given field names, in either spelling. -/
def record? (names : List String) : Json → Option (String → Option Json)
  | .object members =>
    if members.all (·.1.isSome) && names.all (fun name => members.countP (·.1 == some name) ≤ 1)
    then some fun name => members.lookup (some name)
    else none
  | .array items =>
    if items.length ≤ names.length then some fun name => items[names.idxOf name]? else none
  | _ => none

/-- Reads a field that has to be there. -/
def required {α : Type} (decode : Json → Option α) : Option Json → Option α
  | some value => decode value
  | none => none

/-- Reads a field that has a default. -/
def withDefault {α : Type} (default : α) (decode : Json → Option α) : Option Json → Option α
  | some value => decode value
  | none => some default

/-- Decodes a JSON value that was not read from a text, so that nesting is not limited. -/
def decodeValue {α : Type} (decode : Decoder α) (value : Json) : Option α :=
  decode value.depth value

end ExprTyping.Json
