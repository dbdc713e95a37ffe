import ExprTyping.Tree.Arena
import ExprTyping.Tree.Notes

/-!
# Trees

A tree is an arena together with the notes on its nodes. The operations here make nodes, overwrite
single parts of them and look names up; `Tree.definitionNamed?` climbs from a node through the
enclosing scopes and takes the first definition of the name.
-/

namespace ExprTyping

/-- An arena and the notes on its nodes. -/
structure Tree where
  arena : Arena := {}
  notes : Notes := {}
  deriving Repr

namespace Tree

/-- The tree without nodes. -/
def empty : Tree := {}

/-- Whether the handle names a node of the tree. -/
def contains (t : Tree) (node : NodeId) : Bool := t.arena.contains node

/-! ## Making nodes -/

/-- Adds an expression and makes it the parent of its operands. -/
def addExpr (t : Tree) (kind : Expr ExprId) : Except Fault (Tree × ExprId) := do
  let (arena, e) ← t.arena.addExpr kind
  return ({ t with arena }, e)

/-- Adds a statement and makes it the parent of its expressions and inner statements. -/
def addStmt (t : Tree) (kind : Stmt ExprId StmtId) : Except Fault (Tree × StmtId) := do
  let (arena, s) ← t.arena.addStmt kind
  return ({ t with arena }, s)

/-! ## Names -/

/-- The definition of a name in the nearest enclosing scope that declares it. -/
def definitionNamed? (t : Tree) (node : NodeId) (name : String) :
    Except Fault (Option Definition) :=
  t.arena.firstUpward
    (fun s stmt => if stmt.ownsScope then (t.notes.scope s).find? name else none) node

/-- The names declared in a statement, or none if nothing can be declared there. -/
def scope? (t : Tree) (s : StmtId) : Except Fault (Option Scope) := do
  let node ← t.arena.stmt s
  return if node.ownsScope then some (t.notes.scope s) else none

/-- Declares a name in a statement; the second component says whether that is possible. -/
def recordDefinition (t : Tree) (s : StmtId) (d : Definition) : Except Fault (Tree × Bool) := do
  match ← t.scope? s with
  | some _ => return ({ t with notes := t.notes.record s d }, true)
  | none => return (t, false)

/-- Forgets all names declared in a statement; the second component says whether any can be
declared there. -/
def clearScope (t : Tree) (s : StmtId) : Except Fault (Tree × Bool) := do
  match ← t.scope? s with
  | some _ => return ({ t with notes := t.notes.setScope s {} }, true)
  | none => return (t, false)

/-! ## Overwriting parts of a node -/

/-- Changes the note on an expression. -/
def modifyNote (t : Tree) (e : ExprId) (change : ExprNote → ExprNote) : Tree :=
  { t with notes := t.notes.setExpr e (change (t.notes.expr e)) }

/-- Puts another expression in the place of one. Its parent and type stay; parents of operands are
not touched. -/
def setExprKind (t : Tree) (e : ExprId) (kind : Expr ExprId) : Except Fault Tree := do
  let _ ← t.arena.expr e
  return { t with arena := t.arena.setExprKind e kind }.modifyNote e fun note =>
    { type := note.type }

/-- Puts another statement in the place of one. Its parent and scope stay; parents of what is
inside are not touched. -/
def setStmtKind (t : Tree) (s : StmtId) (kind : Stmt ExprId StmtId) : Except Fault Tree := do
  let _ ← t.arena.stmt s
  return { t with arena := t.arena.setStmtKind s kind }

/-- Notes a type on an expression. -/
def setType (t : Tree) (e : ExprId) (type : Option Ty) : Except Fault Tree := do
  let _ ← t.arena.expr e
  return t.modifyNote e fun note => { note with type }

/-- Notes a binding on an identifier, and nothing on another expression. -/
def setBinding (t : Tree) (e : ExprId) (binding : Option Binding) : Except Fault Tree := do
  let node ← t.arena.expr e
  return if node.kind.isIdentifier then t.modifyNote e fun note => { note with binding } else t

/-- Notes a member on a member access, and nothing on another expression. -/
def setMember (t : Tree) (e : ExprId) (member : Option Member) : Except Fault Tree := do
  let node ← t.arena.expr e
  return if node.kind.isMember then t.modifyNote e fun note => { note with member } else t

end Tree

end ExprTyping
