import ExprTyping.Ty.Basic
import ExprTyping.Vocabulary.Operator

/-!
# Expressions, one layer at a time

`Expr ε` is one expression whose operands are of type `ε`. In a tree the operands are handles;
while an expression is typed they are the results of visiting them.

* `Expr.slots` lists the operands in source order.
* `Expr.mapM` visits the operands in source order and puts the results in their places.
* `Expr.replaceFirst?` puts another operand in the place of the first one that equals a given one.
-/

namespace ExprTyping

/-- A literal. -/
inductive Constant where
  | int (value : Int)
  | binary (value : Int)
  | octal (value : Int)
  | hexadecimal (value : Int)
  /-- A floating-point literal; its value plays no part in typing and is not kept. -/
  | float
  | bool (value : Bool)
  | string (content : String)
  | nil
  /-- Source text that is carried through unread. -/
  | raw (source : String)
  deriving DecidableEq, Repr

/-- An argument of a call. -/
structure Argument (ε : Type) where
  label : Option String
  value : ε
  deriving DecidableEq, Repr

/-- One expression over operands of type `ε`. -/
inductive Expr (ε : Type) where
  | identifier (name : String)
  | constant (value : Constant)
  | prefixed (op : Operator) (operand : ε)
  | unary (op : Operator) (operand : ε)
  | binary (lhs : ε) (op : Operator) (rhs : ε)
  | assignment (lhs : ε) (op : Operator) (rhs : ε)
  /-- `operand as? target` -/
  | cast (operand : ε) (target : Ty)
  | ternary (condition ifTrue ifFalse : ε)
  | parens (inner : ε)
  | arrayLiteral (items : List ε)
  | dictionaryLiteral (pairs : List (ε × ε))
  /-- `receiver.name` -/
  | member (receiver : ε) (name : String)
  /-- `receiver[index]` -/
  | subscript (receiver index : ε)
  /-- `callee(label: value, …)` -/
  | call (callee : ε) (arguments : List (Argument ε))
  /-- `receiver?` -/
  | chain (receiver : ε)
  deriving DecidableEq, Repr

namespace Expr

variable {α β : Type}

/-- The operands in source order. -/
def slots : Expr α → List α
  | .identifier _ | .constant _ => []
  | .prefixed _ x | .unary _ x | .cast x _ | .parens x => [x]
  | .binary l _ r | .assignment l _ r => [l, r]
  | .ternary c t f => [c, t, f]
  | .arrayLiteral items => items
  | .dictionaryLiteral pairs => pairs.flatMap fun (key, value) => [key, value]
  | .member x _ | .chain x => [x]
  | .subscript x i => [x, i]
  | .call f arguments => f :: arguments.map (·.value)

/-- The expression with each operand replaced by the result of visiting it, in source order. -/
def mapM {m : Type → Type} [Monad m] (visit : α → m β) : Expr α → m (Expr β)
  | .identifier name => return .identifier name
  | .constant value => return .constant value
  | .prefixed op x => return .prefixed op (← visit x)
  | .unary op x => return .unary op (← visit x)
  | .binary l op r => return .binary (← visit l) op (← visit r)
  | .assignment l op r => return .assignment (← visit l) op (← visit r)
  | .cast x target => return .cast (← visit x) target
  | .ternary c t f => return .ternary (← visit c) (← visit t) (← visit f)
  | .parens x => return .parens (← visit x)
  | .arrayLiteral items => return .arrayLiteral (← items.mapM visit)
  | .dictionaryLiteral pairs =>
    return .dictionaryLiteral (← pairs.mapM fun (key, value) => return (← visit key, ← visit value))
  | .member x name => return .member (← visit x) name
  | .subscript x i => return .subscript (← visit x) (← visit i)
  | .call f arguments =>
    return .call (← visit f) (← arguments.mapM fun a => return ⟨a.label, ← visit a.value⟩)
  | .chain x => return .chain (← visit x)

/-- What a member access, subscript, call or optional link is applied to. -/
def receiver? : Expr α → Option α
  | .member x _ | .subscript x _ | .call x _ | .chain x => some x
  | _ => none

/-- What a call calls. -/
def callee? : Expr α → Option α
  | .call f _ => some f
  | _ => none

/-- Whether this is a name standing alone. -/
def isIdentifier : Expr α → Bool
  | .identifier _ => true
  | _ => false

/-- Whether this is a member access. -/
def isMember : Expr α → Bool
  | .member .. => true
  | _ => false

end Expr

/-- The state says whether `old` was met before; the first time it is met, `new` takes its place. -/
def swapFirst {α : Type} [DecidableEq α] (old new : α) (x : α) : StateM Bool α := fun met =>
  if !met && x = old then (new, true) else (x, met)

/-- The expression with `new` in the place of the first operand `old`, or none if no operand is
`old`. -/
def Expr.replaceFirst? {α : Type} [DecidableEq α] (old new : α) (x : Expr α) : Option (Expr α) :=
  match (x.mapM (swapFirst old new)).run false with
  | (replaced, true) => some replaced
  | (_, false) => none

end ExprTyping
