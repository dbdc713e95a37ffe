import ExprTyping.Tree.Expr
import ExprTyping.Typing.Verdict

/-!
# Typing rules

The rules that give an expression a type from the types of its operands. An operand that is not
resolved has no type. Failed operands are dealt with before a rule is asked (`unlessFailed`),
except by the rule for method calls, whose callee is allowed to fail.

A rule that does not apply leaves the expression unresolved. Only a ternary with different
branches, a subscript with a wrong index, and a name that is not found are errors.
-/

namespace ExprTyping.Rule

/-! ## Literals and casts -/

/-- The type of a literal. -/
def constant : Constant → Ty
  | .int _ | .binary _ | .octal _ | .hexadecimal _ => .int
  | .float => .float
  | .string _ => .string
  | .bool _ => .bool
  | .nil => .optional .anyObject
  | .raw _ => .any

/-- A cast to the operand's own type cannot fail; any other may, and gives an optional. -/
def cast (operand : Option Ty) (target : Ty) : Ty :=
  if operand = some target then target else .optional target

/-! ## Operators -/

/-- The type of an operator in front of its operand. -/
def unary : Operator → Option Ty → Option Ty
  | .negate, some .bool => some .bool
  | .add, some t | .subtract, some t => if t.isNumeric then some t else none
  | .bitwiseNot, some t => if t.isInteger then some t else none
  | _, _ => none

/-- The type that two operands have in common, if it satisfies the condition. -/
def common (condition : Ty → Bool) : Option Ty → Option Ty → Option Ty
  | some l, some r => if l = r ∧ condition l then some l else none
  | _, _ => none

/-- The right operand's type, if the operands agree once all optionality is removed. -/
def coalesced : Option Ty → Option Ty → Option Ty
  | some l, some r => if l.deepUnwrapped = r.deepUnwrapped then some r else none
  | _, _ => none

/-- The type of an operator between two operands. -/
def binary (op : Operator) (lhs rhs : Option Ty) : Option Ty :=
  match op.category with
  | .arithmetic => common Ty.isNumeric lhs rhs
  | .comparison => some .bool
  | .logical => if lhs = some .bool ∧ rhs = some .bool then some .bool else none
  | .bitwise => if op = .bitwiseNot then none else common Ty.isInteger lhs rhs
  | .nullCoalesce => coalesced lhs rhs
  | .assignment | .range => none

/-- The branches of a ternary have to agree. Two different types are an error, and so is a single
unresolved branch, which is reported where it stands if at all. -/
def ternary (ifTrue ifFalse : Option Ty) : Verdict :=
  if ifTrue = ifFalse then .typed ifTrue
  else
    match ifTrue, ifFalse with
    | some t, some f => .reported (.ternaryMismatch t f)
    | _, _ => .failed

/-! ## Collection literals -/

/-- Elements of one type make an array of that type; all other array literals are untyped. -/
def arrayLiteral : List (Option Ty) → Ty
  | some first :: rest => if rest.all (· == some first) then .array first else .untypedArray
  | _ => .untypedArray

/-- Keys of one type with values of one type make a dictionary of these types; all other
dictionary literals are untyped. -/
def dictionaryLiteral : List (Option Ty × Option Ty) → Ty
  | (some key, some value) :: rest =>
    if rest.all (· == (some key, some value)) then .dictionary key value else .untypedDictionary
  | _ => .untypedDictionary

/-! ## Subscripts and loops -/

/-- Whether values of the type are those of the class, or of one that inherits from it. -/
def isInstance (catalog : Catalog) (type : Ty) (base : Collection) : Bool :=
  match type with
  | .named name => catalog.isSubtype name base.name
  | _ => false

/-- Something like an array takes an `Int` as its index. -/
def integerSubscript (receiver : Ty) (index : Option Ty) (element : Ty) : Verdict :=
  match index with
  | some .int => .typed (some element)
  | some index => .reported (.nonIntegerSubscript receiver index)
  | none => .typed none

/-- Arrays are subscripted by `Int`, dictionaries by anything, and then the key may be missing. -/
def subscript (catalog : Catalog) (receiver index : Option Ty) : Verdict :=
  match receiver with
  | none => .typed none
  | some receiver =>
    match receiver.arrayElement?, receiver.dictionaryEntry? with
    | some element, _ => integerSubscript receiver index element
    | none, some (_, value) => .typed (some (.optional value))
    | none, none =>
      if isInstance catalog receiver .legacyArray then integerSubscript receiver index .anyObject
      else if isInstance catalog receiver .legacyDictionary then
        .typed (some (.optional .anyObject))
      else .typed none

/-- The type of a loop's variable, and what is wrong with the type that the loop iterates over. -/
def loopElement (catalog : Catalog) : Option Ty → Ty × Option Issue
  | none => (.errorType, none)
  | some iterated =>
    match iterated.arrayElement? with
    | some element => (element, none)
    | none =>
      if isInstance catalog iterated .legacyArray then (.anyObject, none)
      else if iterated.isError then (.errorType, none)
      else (.errorType, some (.notIterable iterated))

/-! ## Members and calls -/

/-- The property that a member access means. What the receiver's type is not known to have is an
error; it is reported unless the access is called, since then it may mean a method. -/
def property (catalog : Catalog) (receiver : Ty) (name : String) (isCallee : Bool) : Verdict :=
  match catalog.typeOf? receiver with
  | none => if isCallee then .failed else .reported (.unknownType receiver)
  | some known =>
    match catalog.property? name receiver.isMetatype known with
    | some p => { note := { type := some p.type, member := some (.property p) } }
    | none =>
      if isCallee then .failed
      else .reported (.unknownMember known.typeName name receiver.isMetatype)

/-- The constructor of a type that takes these labels. -/
def constructor? (catalog : Catalog) (subject : Ty) (labels : List String) :
    Except Issue Constructor :=
  match catalog.typeOf? subject with
  | none => .error (.unknownType subject)
  | some known =>
    match Catalog.constructor? labels known with
    | some c => .ok c
    | none => .error (.noMatchingConstructor known.typeName (selector Name.initMember labels))

/-- A call of a type makes a value of it. -/
def construction (catalog : Catalog) (subject : Ty) (labels : List String) : Verdict :=
  match constructor? catalog subject labels with
  | .ok _ => .typed (some subject)
  | .error issue => .reported issue

/-- A call of a type's `init` makes a value of the type and is called through the constructor. -/
def initCall (catalog : Catalog) (subject : Ty) (callee : ExprNote) (labels : List String) :
    Verdict :=
  match constructor? catalog subject labels with
  | .ok c =>
    { note := { type := some subject }
      callee := some { callee with type := some (.function c.parameterTypes subject) } }
  | .error issue => .reported issue

/-- What a property that holds a function returns. -/
def returnedByProperty? : Option Member → Option Ty
  | some (.property ⟨_, .function _ result, _⟩) => some result
  | _ => none

/-- A call of a member that is no constructor: of a property that holds a function, or else of a
method. The method settles what the callee means. -/
def methodCall (catalog : Catalog) (receiver : Ty) (name : String) (callee : ExprNote)
    (labels : List String) : Verdict :=
  match returnedByProperty? callee.member with
  | some result => .typed (some result)
  | none =>
    match catalog.typeOf? receiver with
    | none => .reported (.unknownType receiver)
    | some known =>
      match catalog.method? name labels receiver.isMetatype known with
      | some m =>
        { note := { type := some m.returnType }
          callee := some { callee with type := some m.functionType, member := some (.method m) } }
      | none =>
        .reported (.noMatchingMethod known.typeName (selector name labels) receiver.isMetatype)

/-- A call of a member. That the callee failed does not matter, that its receiver did does. -/
def memberCall (catalog : Catalog) (receiver : Option Ty) (name : String) (callee : ExprNote)
    (labels : List String) : Verdict :=
  match receiver with
  | none | some .errorType => .failed
  | some (.metatype subject) =>
    if name = Name.initMember then initCall catalog subject callee labels
    else methodCall catalog (.metatype subject) name callee labels
  | some receiver => methodCall catalog receiver name callee labels

/-- A call of a name. Only types can be called by their name. -/
def nameCall (catalog : Catalog) (callee : Option Ty) (labels : List String) : Verdict :=
  match callee with
  | some (.metatype subject) => construction catalog subject labels
  | some .errorType => .failed
  | _ => .typed none

end ExprTyping.Rule
