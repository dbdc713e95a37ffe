/-!
# Handles

Expressions and statements live in two arrays, and a handle is a position in one of them. Nothing
keeps a handle from naming a position that does not exist; operations that meet such a handle stop
with a `Fault`.
-/

namespace ExprTyping

/-- The handle of an expression. -/
@[ext] structure ExprId where
  index : Nat
  deriving DecidableEq, Repr

/-- The handle of a statement. -/
@[ext] structure StmtId where
  index : Nat
  deriving DecidableEq, Repr

/-- The handle of an expression or a statement. -/
inductive NodeId where
  | expr (e : ExprId)
  | stmt (s : StmtId)
  deriving DecidableEq, Repr

/-- The text of a handle. -/
def NodeId.text : NodeId → String
  | .expr e => "expr#" ++ toString e.index
  | .stmt s => "stmt#" ++ toString s.index

/-- Why an operation on a tree cannot go on. -/
inductive Fault where
  /-- An expression handle that names no expression of the tree. -/
  | missingExpr
  /-- A statement handle that names no statement of the tree. -/
  | missingStmt
  /-- A walk that met more nodes than the tree has, and so runs in a circle. -/
  | endless
  deriving DecidableEq, Repr

/-- The fault in words. -/
def Fault.message : Fault → String
  | .missingExpr => "INVARIANT: expression handles are minted by this tree"
  | .missingStmt => "INVARIANT: statement handles are minted by this tree"
  | .endless => "INVARIANT: nodes do not contain themselves"

end ExprTyping
