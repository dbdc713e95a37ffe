import ExprTyping.Known.Basic
import ExprTyping.Tree.Handle
import ExprTyping.Tree.Table

/-!
# Notes

What typing leaves on a tree, apart from its nodes: a type, a binding and a member for each
expression, and the names declared in each statement.
-/

namespace ExprTyping

/-- A name and the type of its values. -/
structure Definition where
  name : String
  type : Ty
  deriving DecidableEq, Repr

/-- What an identifier means. -/
inductive Binding where
  /-- A variable, parameter or name that is always in scope. -/
  | defined (definition : Definition)
  /-- A known type; the identifier's value is the type itself. -/
  | knownType (name : String)
  /-- A property of the receiver of the enclosing method. -/
  | implicitMember (owner : String) (property : Property)
  deriving DecidableEq, Repr

/-- What a member access means. -/
inductive Member where
  | property (property : Property)
  | method (method : Method)
  deriving DecidableEq, Repr

/-- What is noted about one expression. -/
structure ExprNote where
  /-- The type, once it is resolved and if a rule gives one. -/
  type : Option Ty := none
  /-- The meaning of an identifier. -/
  binding : Option Binding := none
  /-- The meaning of a member access. -/
  member : Option Member := none
  deriving DecidableEq, Repr, Inhabited

/-! ## Scopes -/

/-- The names declared in a statement; the last declaration of a name counts. -/
structure Scope where
  definitions : List Definition := []
  deriving DecidableEq, Repr, Inhabited

namespace Scope

/-- The definition of a name. -/
def find? (scope : Scope) (name : String) : Option Definition :=
  scope.definitions.find? fun d => d.name == name

/-- The number of declared names. -/
def size (scope : Scope) : Nat := scope.definitions.length

/-- Whether no name is declared. -/
def isEmpty (scope : Scope) : Bool := scope.definitions.isEmpty

/-- The definitions with `d` in the place of the one of its name, or at the end if there is none. -/
def insertDefinition (d : Definition) : List Definition → List Definition
  | [] => [d]
  | other :: rest => if other.name = d.name then d :: rest else other :: insertDefinition d rest

/-- The scope in which `d` is the definition of its name. -/
def record (scope : Scope) (d : Definition) : Scope := ⟨insertDefinition d scope.definitions⟩

theorem find?_record_self (scope : Scope) (d : Definition) :
    (scope.record d).find? d.name = some d := by
  show (insertDefinition d scope.definitions).find? _ = some d
  induction scope.definitions with
  | nil => simp [insertDefinition]
  | cons other rest ih => by_cases h : other.name = d.name <;> simp [insertDefinition, h, ih]

theorem find?_record_of_ne {scope : Scope} {d : Definition} {name : String} (h : name ≠ d.name) :
    (scope.record d).find? name = scope.find? name := by
  show (insertDefinition d scope.definitions).find? _ = scope.definitions.find? _
  induction scope.definitions with
  | nil => simp [insertDefinition, h.symm]
  | cons other rest ih =>
    by_cases hd : other.name = d.name
    · simp [insertDefinition, hd, h.symm]
    · simp [insertDefinition, hd, List.find?_cons, ih]

end Scope

/-- The notes on a tree: one for each expression, and one scope for each statement. The scope of a
statement in which nothing can be declared stays empty. -/
structure Notes where
  exprs : Table ExprNote := {}
  scopes : Table Scope := {}
  deriving Repr

namespace Notes

/-- The note on an expression. -/
def expr (notes : Notes) (e : ExprId) : ExprNote := notes.exprs.get e.index

/-- The type noted on an expression. -/
def type (notes : Notes) (e : ExprId) : Option Ty := (notes.expr e).type

/-- The names declared in a statement. -/
def scope (notes : Notes) (s : StmtId) : Scope := notes.scopes.get s.index

/-- Puts another note on an expression. -/
def setExpr (notes : Notes) (e : ExprId) (note : ExprNote) : Notes :=
  { notes with exprs := notes.exprs.set e.index note }

/-- Puts another scope on a statement. -/
def setScope (notes : Notes) (s : StmtId) (scope : Scope) : Notes :=
  { notes with scopes := notes.scopes.set s.index scope }

/-- Declares a name in a statement. -/
def record (notes : Notes) (s : StmtId) (d : Definition) : Notes :=
  notes.setScope s ((notes.scope s).record d)

/-- Declares several names in a statement, one after another. -/
def recordAll (notes : Notes) (s : StmtId) (definitions : List Definition) : Notes :=
  definitions.foldl (fun notes d => notes.record s d) notes

@[simp] theorem expr_setExpr (notes : Notes) (e x : ExprId) (note : ExprNote) :
    (notes.setExpr e note).expr x = if e = x then note else notes.expr x := by
  simp [expr, setExpr, ExprId.ext_iff]

@[simp] theorem scope_setExpr (notes : Notes) (e : ExprId) (note : ExprNote) (s : StmtId) :
    (notes.setExpr e note).scope s = notes.scope s := rfl

@[simp] theorem scope_setScope (notes : Notes) (s x : StmtId) (scope : Scope) :
    (notes.setScope s scope).scope x = if s = x then scope else notes.scope x := by
  simp [Notes.scope, setScope, StmtId.ext_iff]

@[simp] theorem expr_setScope (notes : Notes) (s : StmtId) (scope : Scope) (e : ExprId) :
    (notes.setScope s scope).expr e = notes.expr e := rfl

end Notes

end ExprTyping
