/-!
# Operators

The operators of the expression language. `Operator.entry` gives each of them its spelling, its
category and the positions it may stand in. The category decides which typing rule a binary
operator follows.
-/

namespace ExprTyping

/-- What an operator is about; binary operators of one category share a typing rule. -/
inductive OperatorCategory where
  | arithmetic
  | comparison
  | logical
  | bitwise
  | nullCoalesce
  | assignment
  | range
  deriving DecidableEq, Repr

/-- Where an operator may stand: between two operands, before one, or in either place. -/
inductive Fixity where
  | between
  | before
  | both
  deriving DecidableEq, Repr

/-- An operator of the expression language. -/
inductive Operator where
  | add
  | subtract
  | multiply
  | divide
  | mod
  | assign
  | addAssign
  | subtractAssign
  | multiplyAssign
  | divideAssign
  | bitwiseAndAssign
  | bitwiseOrAssign
  | negate
  | and
  | or
  | bitwiseAnd
  | bitwiseOr
  | bitwiseXor
  | bitwiseNot
  | bitwiseShiftLeft
  | bitwiseShiftRight
  | lessThan
  | lessThanOrEqual
  | greaterThan
  | greaterThanOrEqual
  | equals
  | unequals
  | identityEquals
  | identityUnequals
  | nullCoalesce
  | openRange
  | closedRange
  deriving DecidableEq, Repr

namespace Operator

/-- What there is to know about an operator. -/
structure Entry where
  spelling : String
  category : OperatorCategory
  fixity : Fixity
  deriving DecidableEq, Repr

/-- What there is to know about each operator. -/
def entry : Operator → Entry
  | .add => ⟨"+", .arithmetic, .both⟩
  | .subtract => ⟨"-", .arithmetic, .both⟩
  | .multiply => ⟨"*", .arithmetic, .between⟩
  | .divide => ⟨"/", .arithmetic, .between⟩
  | .mod => ⟨"%", .arithmetic, .between⟩
  | .assign => ⟨"=", .assignment, .between⟩
  | .addAssign => ⟨"+=", .assignment, .between⟩
  | .subtractAssign => ⟨"-=", .assignment, .between⟩
  | .multiplyAssign => ⟨"*=", .assignment, .between⟩
  | .divideAssign => ⟨"/=", .assignment, .between⟩
  | .bitwiseAndAssign => ⟨"&=", .assignment, .between⟩
  | .bitwiseOrAssign => ⟨"|=", .assignment, .between⟩
  | .negate => ⟨"!", .logical, .before⟩
  | .and => ⟨"&&", .logical, .between⟩
  | .or => ⟨"||", .logical, .between⟩
  | .bitwiseAnd => ⟨"&", .bitwise, .between⟩
  | .bitwiseOr => ⟨"|", .bitwise, .between⟩
  | .bitwiseXor => ⟨"^", .bitwise, .between⟩
  | .bitwiseNot => ⟨"~", .bitwise, .before⟩
  | .bitwiseShiftLeft => ⟨"<<", .bitwise, .between⟩
  | .bitwiseShiftRight => ⟨">>", .bitwise, .between⟩
  | .lessThan => ⟨"<", .comparison, .between⟩
  | .lessThanOrEqual => ⟨"<=", .comparison, .between⟩
  | .greaterThan => ⟨">", .comparison, .between⟩
  | .greaterThanOrEqual => ⟨">=", .comparison, .between⟩
  | .equals => ⟨"==", .comparison, .between⟩
  | .unequals => ⟨"!=", .comparison, .between⟩
  | .identityEquals => ⟨"===", .comparison, .between⟩
  | .identityUnequals => ⟨"!==", .comparison, .between⟩
  | .nullCoalesce => ⟨"??", .nullCoalesce, .between⟩
  | .openRange => ⟨"..<", .range, .between⟩
  | .closedRange => ⟨"...", .range, .between⟩

/-- Every operator, in the order of the language reference. -/
def all : List Operator :=
  [.add, .subtract, .multiply, .divide, .mod,
   .assign, .addAssign, .subtractAssign, .multiplyAssign, .divideAssign,
   .bitwiseAndAssign, .bitwiseOrAssign,
   .negate, .and, .or,
   .bitwiseAnd, .bitwiseOr, .bitwiseXor, .bitwiseNot, .bitwiseShiftLeft, .bitwiseShiftRight,
   .lessThan, .lessThanOrEqual, .greaterThan, .greaterThanOrEqual,
   .equals, .unequals, .identityEquals, .identityUnequals,
   .nullCoalesce,
   .openRange, .closedRange]

/-- How the operator is written. -/
def spelling (op : Operator) : String := op.entry.spelling

/-- The category that picks the operator's typing rule. -/
def category (op : Operator) : OperatorCategory := op.entry.category

/-- The positions the operator may stand in. -/
def fixity (op : Operator) : Fixity := op.entry.fixity

/-- The operator that is written as `text`, if there is one. -/
def ofSpelling? (text : String) : Option Operator := all.find? fun op => op.spelling == text

theorem mem_all (op : Operator) : op ∈ all := by cases op <;> decide

/-- No two operators share a spelling, so reading a spelling gives the operator back. -/
theorem ofSpelling?_spelling (op : Operator) : ofSpelling? op.spelling = some op := by
  cases op <;> decide

end Operator

end ExprTyping
