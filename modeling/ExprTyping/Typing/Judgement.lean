import ExprTyping.Tree.Basic
import ExprTyping.Typing.Intrinsics
import ExprTyping.Typing.Rule

/-!
# Judging one expression

`Setting.judge` gives the verdict on an expression whose operands have been visited. The operands'
types come with them; besides, a name is looked up in the scopes around it, and a call looks at the
notes on its callee.
-/

namespace ExprTyping

/-- What stays the same while a program is typed. -/
structure Setting where
  arena : Arena
  catalog : Catalog
  intrinsics : Intrinsics
  /-- Whether an expression that has a type keeps it and is not visited. -/
  skipsResolved : Bool := false

/-- The type of an identifier with this meaning. -/
def Binding.type : Binding → Ty
  | .defined definition => definition.type
  | .knownType name => .metatype (.named name)
  | .implicitMember _ property => property.type

/-- The labels that a call has to match. -/
def argumentLabels {ε : Type} (arguments : List (Argument ε)) : List String :=
  arguments.map fun a => a.label.getD Name.wildcardLabel

namespace Setting

/-- The meaning of a name at a place: an intrinsic, a declared name, an implicit member or a known
type, whichever comes first. -/
def binding? (s : Setting) (notes : Notes) (e : ExprId) (name : String) :
    Except Fault (Option Binding) :=
  match s.intrinsics.definition? name with
  | some d => return some (.defined d)
  | none => do
    match ← Tree.definitionNamed? ⟨s.arena, notes⟩ (.expr e) name with
    | some d => return some (.defined d)
    | none =>
      match s.intrinsics.implicitMember? name with
      | some b => return some b
      | none => return (s.catalog.knownType? name).map fun k => .knownType k.typeName

/-- A name has the type of its meaning. -/
def judgeName (s : Setting) (notes : Notes) (e : ExprId) (name : String) :
    Except Fault Verdict := do
  match ← s.binding? notes e name with
  | some b => return { note := { type := some b.type, binding := some b } }
  | none => return .reported (.unknownIdentifier name)

/-- A member access. The member `self` is the receiver itself. -/
def judgeMember (s : Setting) (e : ExprId) (receiver : Operand) (name : String) :
    Except Fault Verdict :=
  if receiver.isFailed then return .failed
  else if name = Name.selfMember then return .typed receiver.type
  else
    match receiver.type with
    | none => return .failed
    | some type => return Rule.property s.catalog type name (← s.arena.isCallee e)

/-- A call. What is called decides the rule. -/
def judgeCall (s : Setting) (notes : Notes) (callee : Operand)
    (arguments : List (Argument Operand)) : Except Fault Verdict :=
  if arguments.any (·.value.isFailed) then return .failed
  else do
    let labels := argumentLabels arguments
    match (← s.arena.expr callee.expr).kind with
    | .member receiver name =>
      let _ ← s.arena.expr receiver
      return Rule.memberCall s.catalog (notes.type receiver) name (notes.expr callee.expr) labels
    | .identifier _ => return Rule.nameCall s.catalog callee.type labels
    | _ => return unlessFailed [callee] (.typed none)

/-- The outermost access of a chain with an optional link gives an optional. -/
def closeChain (s : Setting) (e : ExprId) (verdict : Verdict) : Except Fault Verdict :=
  match verdict.type with
  | none => return verdict
  | some type => do
    if type.isError || type.isOptional then return verdict
    if ← s.arena.closesChain e then return verdict.withType (some (.optional type))
    return verdict

/-- The verdict on an expression whose operands have been visited. -/
def judge (s : Setting) (notes : Notes) (e : ExprId) : Expr Operand → Except Fault Verdict
  | .identifier name => s.judgeName notes e name
  | .constant value => return .typed (some (Rule.constant value))
  | .prefixed op x | .unary op x => return unlessFailed [x] (.typed (Rule.unary op x.type))
  | .binary l op r => return unlessFailed [l, r] (.typed (Rule.binary op l.type r.type))
  | .assignment .. => return .typed none
  | .cast x target => return unlessFailed [x] (.typed (some (Rule.cast x.type target)))
  | .ternary c t f => return unlessFailed [c, t, f] (Rule.ternary t.type f.type)
  | .parens x => return .typed x.type
  | .arrayLiteral items =>
    return unlessFailed items (.typed (some (Rule.arrayLiteral (items.map (·.type)))))
  | .dictionaryLiteral pairs =>
    return unlessFailed (pairs.flatMap fun (key, value) => [key, value])
      (.typed (some (Rule.dictionaryLiteral (pairs.map fun (key, value) =>
        (key.type, value.type)))))
  | .member receiver name => do s.closeChain e (← s.judgeMember e receiver name)
  | .subscript receiver index =>
    s.closeChain e
      (unlessFailed [receiver, index] (Rule.subscript s.catalog receiver.type index.type))
  | .call callee arguments => do s.closeChain e (← s.judgeCall notes callee arguments)
  | .chain receiver =>
    s.closeChain e (unlessFailed [receiver] (.typed (receiver.type.map Ty.unwrapped)))

end Setting

end ExprTyping
