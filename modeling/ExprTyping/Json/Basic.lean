/-!
# JSON values

A JSON value as a document spells it. Members keep their order and may repeat, and a number keeps
its digits, because a reader of records has to see both. A string literal is `none` if an escape in
it names half a surrogate pair: such a literal is well formed and denotes no text.
-/

namespace ExprTyping

/-- A JSON value as spelled in a document. -/
inductive Json where
  | null
  | bool (value : Bool)
  | number (digits : String)
  | string (content : Option String)
  | array (items : List Json)
  | object (members : List (Option String × Json))
  deriving Repr, Inhabited

namespace Json

/-- The literal for `content`. -/
def text (content : String) : Json := .string (some content)

/-- The object with these members. -/
def record (members : List (String × Json)) : Json :=
  .object (members.map fun (key, value) => (some key, value))

mutual

/-- How many arrays and objects are nested in one another. -/
def depth : Json → Nat
  | .array items => depthItems items + 1
  | .object members => depthMembers members + 1
  | _ => 0

/-- The greatest depth among some values. -/
def depthItems : List Json → Nat
  | [] => 0
  | item :: rest => max (depth item) (depthItems rest)

/-- The greatest depth among the values of some members. -/
def depthMembers : List (Option String × Json) → Nat
  | [] => 0
  | (_, value) :: rest => max (depth value) (depthMembers rest)

end

end Json

end ExprTyping
