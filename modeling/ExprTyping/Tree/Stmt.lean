import ExprTyping.Text.Separated
import ExprTyping.Tree.Expr

/-!
# Statements, one layer at a time

`Stmt ε σ` is one statement whose expressions are of type `ε` and whose inner statements are of
type `σ`. The expressions of a statement come before its inner statements in every form.
-/

namespace ExprTyping

/-- What a loop binds in each round. -/
inductive Pattern where
  | identifier (name : String)
  | tuple (items : List Pattern)
  | wildcard
  deriving Repr, Inhabited

namespace Pattern

mutual

/-- The text of a pattern. -/
def render : Pattern → String
  | .identifier name => name
  | .wildcard => "_"
  | .tuple items => "(" ++ Text.commaSeparated (renderAll items) ++ ")"

/-- The texts of several patterns. -/
def renderAll : List Pattern → List String
  | [] => []
  | p :: rest => render p :: renderAll rest

end

end Pattern

/-- One declared variable. -/
structure VariableDeclaration (ε : Type) where
  name : String
  type : Ty
  initializer : Option ε := none
  isConstant : Bool := false
  deriving DecidableEq, Repr

/-- One statement over expressions of type `ε` and inner statements of type `σ`. -/
inductive Stmt (ε σ : Type) where
  | block (body : List σ)
  | conditional (condition : ε) (body : σ) (otherwise : Option σ)
  | whileLoop (condition : ε) (body : σ)
  | forIn (pattern : Pattern) (iterated : ε) (body : σ)
  | variables (declarations : List (VariableDeclaration ε))
  | expressions (items : List ε)
  | returning (value : Option ε)
  | breaking
  | continuing
  deriving Repr

namespace Stmt

variable {ε ε' σ : Type}

/-- The expressions of the statement in source order. -/
def exprSlots : Stmt ε σ → List ε
  | .conditional c _ _ | .whileLoop c _ => [c]
  | .forIn _ x _ => [x]
  | .variables declarations => declarations.filterMap (·.initializer)
  | .expressions items => items
  | .returning value => value.toList
  | .block _ | .breaking | .continuing => []

/-- The inner statements in source order. -/
def stmtSlots : Stmt ε σ → List σ
  | .block body => body
  | .conditional _ body otherwise => body :: otherwise.toList
  | .whileLoop _ body | .forIn _ _ body => [body]
  | _ => []

/-- The statement with each expression replaced by the result of visiting it, in source order. -/
def mapExprM {m : Type → Type} [Monad m] (visit : ε → m ε') : Stmt ε σ → m (Stmt ε' σ)
  | .block body => return .block body
  | .conditional c body otherwise => return .conditional (← visit c) body otherwise
  | .whileLoop c body => return .whileLoop (← visit c) body
  | .forIn pattern x body => return .forIn pattern (← visit x) body
  | .variables declarations =>
    return .variables (← declarations.mapM fun d =>
      return { d with initializer := ← d.initializer.mapM visit })
  | .expressions items => return .expressions (← items.mapM visit)
  | .returning value => return .returning (← value.mapM visit)
  | .breaking => return .breaking
  | .continuing => return .continuing

/-- Whether a statement of this form gets a scope when it is made: blocks do, and loops over a
collection, whose scope lies between their body and the enclosing block. -/
def opensScope : Stmt ε σ → Bool
  | .block _ | .forIn .. => true
  | _ => false

/-- The statement with `new` in the place of the first expression `old`, or none if no expression
is `old`. -/
def replaceFirst? [DecidableEq ε] (old new : ε) (x : Stmt ε σ) : Option (Stmt ε σ) :=
  match (x.mapExprM (swapFirst old new)).run false with
  | (replaced, true) => some replaced
  | (_, false) => none

end Stmt

end ExprTyping
