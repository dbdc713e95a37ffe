import ExprTyping.Text.Separated
import ExprTyping.Ty.Basic

/-!
# The text of a type

`Ty.render` writes a type the way diagnostics show it: `[T]` and `[K: V]` for arrays and
dictionaries, `Name<A, B>` for other generics, `(A, B) -> R` for functions, `T?` for optionals and
`T.Type` for metatypes. A function type is put in parentheses under `?` and `.Type`, an optional
one under `.Type`.
-/

namespace ExprTyping.Ty

/-- Whether the text of the type needs parentheses before `?`. -/
def isFunction : Ty → Bool
  | .function .. => true
  | _ => false

/-- The text in parentheses if `grouped` holds, else the bare text. -/
def parenthesized (grouped : Bool) (text : String) : String :=
  if grouped then "(" ++ text ++ ")" else text

/-- The text of a generic type: the short form for arrays and dictionaries, else its name with the
arguments in angle brackets. -/
def renderGeneric (name : String) (arguments : List String) : String :=
  match arguments with
  | [element] =>
    if name = Collection.array.name then "[" ++ element ++ "]" else name ++ "<" ++ element ++ ">"
  | [key, value] =>
    if name = Collection.dictionary.name then "[" ++ key ++ ": " ++ value ++ "]"
    else name ++ "<" ++ Text.commaSeparated [key, value] ++ ">"
  | arguments => name ++ "<" ++ Text.commaSeparated arguments ++ ">"

mutual

/-- The text of a type. -/
def render : Ty → String
  | .void => "Void"
  | .bool => "Bool"
  | .int => "Int"
  | .float => "Float"
  | .string => "String"
  | .any => "Any"
  | .anyObject => "AnyObject"
  | .errorType => "<<error type>>"
  | .named name => name
  | .metatype subject =>
    parenthesized (subject.isFunction || subject.isOptional) (render subject) ++ ".Type"
  | .optional wrapped => parenthesized wrapped.isFunction (render wrapped) ++ "?"
  | .generic name arguments => renderGeneric name (renderAll arguments)
  | .function parameters result =>
    "(" ++ Text.commaSeparated (renderAll parameters) ++ ") -> " ++ render result

/-- The texts of several types. -/
def renderAll : List Ty → List String
  | [] => []
  | t :: rest => render t :: renderAll rest

end

theorem renderAll_eq_map (ts : List Ty) : renderAll ts = ts.map render := by
  induction ts with
  | nil => rfl
  | cons t rest ih => simp [renderAll, ih]

end ExprTyping.Ty
