import ExprTyping.Json.Basic

/-!
# Writing JSON text

`Json.render` writes a value without blanks. In a literal the quote, the backslash and the control
characters are escaped, in the short form where there is one. A number is written with its digits,
and a literal that denotes no text with half a surrogate pair.
-/

namespace ExprTyping.Json

/-- A character as it stands in a string literal. -/
def escape : Char → List Char
  | '"' => ['\\', '"']
  | '\\' => ['\\', '\\']
  | '\x08' => ['\\', 'b']
  | '\x0c' => ['\\', 'f']
  | '\n' => ['\\', 'n']
  | '\r' => ['\\', 'r']
  | '\t' => ['\\', 't']
  | c =>
    if c < ' ' then
      ['\\', 'u', '0', '0', Nat.digitChar (c.toNat / 16), Nat.digitChar (c.toNat % 16)]
    else [c]

/-- A string literal with its closing quote, without the opening one. -/
def writeLiteral : Option String → List Char
  | some content => content.toList.flatMap escape ++ ['"']
  | none => ['\\', 'u', 'd', '8', '0', '0', '"']

mutual

/-- The text of a value. -/
def write : Json → List Char
  | .null => ['n', 'u', 'l', 'l']
  | .bool true => ['t', 'r', 'u', 'e']
  | .bool false => ['f', 'a', 'l', 's', 'e']
  | .number digits => digits.toList
  | .string content => '"' :: writeLiteral content
  | .array items => '[' :: writeItems items
  | .object members => '\x7b' :: writeMembers members

/-- The text of some values, up to the closing bracket. -/
def writeItems : List Json → List Char
  | [] => [']']
  | [item] => write item ++ [']']
  | item :: next :: rest => write item ++ ',' :: writeItems (next :: rest)

/-- The text of some members, up to the closing brace. -/
def writeMembers : List (Option String × Json) → List Char
  | [] => ['\x7d']
  | [(key, value)] => '"' :: (writeLiteral key ++ ':' :: (write value ++ ['\x7d']))
  | (key, value) :: next :: rest =>
    '"' :: (writeLiteral key ++ ':' :: (write value ++ ',' :: writeMembers (next :: rest)))

end

/-- The text of a value. -/
def render (value : Json) : String := String.ofList value.write

end ExprTyping.Json
