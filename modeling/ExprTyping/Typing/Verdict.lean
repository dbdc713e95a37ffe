import ExprTyping.Catalog.Lineage
import ExprTyping.Tree.Notes
import ExprTyping.Typing.Issue

/-!
# Verdicts

A verdict is what a visit concludes about one expression: what to note on it and what to report.
A call may also settle what its callee means, which the callee alone could not.
-/

namespace ExprTyping

/-- What a visit concludes about an expression. -/
structure Verdict where
  /-- What is noted on the expression. -/
  note : ExprNote := {}
  /-- What is reported about the expression. -/
  issue : Option Issue := none
  /-- What is noted on the callee of a call, if the call settles that. -/
  callee : Option ExprNote := none
  deriving DecidableEq, Repr

namespace Verdict

/-- The expression has this type, or stays unresolved. -/
def typed (type : Option Ty) : Verdict := { note := { type } }

/-- The expression fails because of something that was reported elsewhere. -/
def failed : Verdict := typed (some .errorType)

/-- The expression fails, and this is the reason. -/
def reported (issue : Issue) : Verdict := { failed with issue := some issue }

/-- The type that the verdict gives the expression. -/
def type (v : Verdict) : Option Ty := v.note.type

/-- The verdict with another type for the expression. -/
def withType (v : Verdict) (type : Option Ty) : Verdict := { v with note := { v.note with type } }

end Verdict

/-- An operand that has been visited. -/
structure Operand where
  expr : ExprId
  type : Option Ty
  deriving DecidableEq, Repr

/-- Whether the operand failed. -/
def Operand.isFailed (x : Operand) : Bool := x.type == some .errorType

/-- A failed operand makes the expression fail; otherwise the verdict stands. -/
def unlessFailed (operands : List Operand) (verdict : Verdict) : Verdict :=
  if operands.any Operand.isFailed then .failed else verdict

end ExprTyping
