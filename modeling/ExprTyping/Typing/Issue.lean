import ExprTyping.Tree.Handle
import ExprTyping.Ty.Render

/-!
# Issues

What typing finds wrong with a program. An `Issue` says what is wrong and a `Diagnostic` where.
-/

namespace ExprTyping

/-- What is wrong at some place of a program. -/
inductive Issue where
  | unknownIdentifier (name : String)
  /-- A loop pattern, given by its text, that binds no name. -/
  | unsupportedLoopPattern (pattern : String)
  | notIterable (type : Ty)
  | unknownType (type : Ty)
  | unknownMember (owner name : String) (isStatic : Bool)
  | noMatchingConstructor (owner selector : String)
  | noMatchingMethod (owner selector : String) (isStatic : Bool)
  | nonIntegerSubscript (receiver index : Ty)
  | ternaryMismatch (ifTrue ifFalse : Ty)
  deriving DecidableEq, Repr

namespace Issue

/-- How members of a type, or of its values, are called. -/
def memberKind (isStatic : Bool) : String := if isStatic then "static" else "instance"

/-- A text between quotation marks. -/
def quoted (text : String) : String := "`" ++ text ++ "`"

/-- The issue in words. -/
def message : Issue → String
  | .unknownIdentifier name => "unknown identifier " ++ quoted name
  | .unsupportedLoopPattern pattern =>
    "loop pattern " ++ quoted pattern ++
      " is not bound; only single-identifier patterns declare loop variables"
  | .notIterable type => "cannot iterate over a value of type " ++ quoted type.render
  | .unknownType type => "type " ++ quoted type.render ++ " is not known to the catalog"
  | .unknownMember owner name isStatic =>
    quoted owner ++ " has no " ++ memberKind isStatic ++ " property " ++ quoted name
  | .noMatchingConstructor owner selector =>
    quoted owner ++ " has no constructor " ++ quoted selector
  | .noMatchingMethod owner selector isStatic =>
    quoted owner ++ " has no " ++ memberKind isStatic ++ " method " ++ quoted selector
  | .nonIntegerSubscript receiver index =>
    "cannot subscript " ++ quoted receiver.render ++ " with an index of type " ++
      quoted index.render
  | .ternaryMismatch ifTrue ifFalse =>
    "ternary branches have different types: " ++ quoted ifTrue.render ++ " and " ++
      quoted ifFalse.render

/-- The identifier of the issue, for tools. -/
def code : Issue → String
  | .unknownIdentifier _ => "retype::resolve::unknown_identifier"
  | .unsupportedLoopPattern _ => "retype::resolve::unsupported_loop_pattern"
  | .notIterable _ => "retype::resolve::not_iterable"
  | .unknownType _ => "retype::resolve::unknown_type"
  | .unknownMember .. => "retype::resolve::unknown_member"
  | .noMatchingConstructor .. => "retype::resolve::no_matching_constructor"
  | .noMatchingMethod .. => "retype::resolve::no_matching_method"
  | .nonIntegerSubscript .. => "retype::resolve::non_integer_subscript"
  | .ternaryMismatch .. => "retype::resolve::ternary_mismatch"

/-- What to do about the issue. -/
def help? : Issue → Option String
  | .unknownIdentifier _ =>
    some "declare the name before use, or register the type it names in the catalog"
  | .notIterable _ => some "for-in loops iterate `Array<T>` values or subclasses of `NSArray`"
  | .noMatchingConstructor .. => some "constructors are matched by argument labels only"
  | .noMatchingMethod .. => some "methods are matched by name and argument labels only"
  | .nonIntegerSubscript .. => some "array-like values are indexed with `Int`"
  | .unsupportedLoopPattern _ | .unknownType _ | .unknownMember .. | .ternaryMismatch .. => none

/-- Whether the program can still be typed in full. -/
def isWarning : Issue → Bool
  | .unsupportedLoopPattern _ => true
  | _ => false

end Issue

/-- An issue and the node it is about. -/
structure Diagnostic where
  issue : Issue
  node : NodeId
  deriving DecidableEq, Repr

namespace Diagnostic

/-- The diagnostic in one line. -/
def text (d : Diagnostic) : String :=
  (if d.issue.isWarning then "warning" else "error") ++ "[" ++ d.node.text ++ "]: " ++
    d.issue.message

end Diagnostic

end ExprTyping
