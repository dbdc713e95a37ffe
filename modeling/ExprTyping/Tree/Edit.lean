import ExprTyping.Tree.Basic

/-!
# Edits in place

`Tree.replaceExpr` puts an expression that has no parent in the place of one that has a parent.
`Tree.wrapExpr` detaches an expression, lets a builder make another one, usually around it, and
puts the result in the old place.

Both go through the slot of the parent: `Tree.rewire` looks for the old expression among the
parent's expressions and changes the first slot that holds it.
-/

namespace ExprTyping

/-- Why an expression cannot be replaced. -/
inductive EditError where
  /-- The tree does not have the node. -/
  | unknownNode (node : NodeId)
  /-- The node has no parent and so no place. -/
  | detached (node : NodeId)
  /-- The node already has a place. -/
  | alreadyAttached (node : NodeId)
  /-- The parent does not have the child. -/
  | corruptParent (child parent : NodeId)
  deriving DecidableEq, Repr

namespace EditError

/-- The identifier of the error, for tools. -/
def code : EditError → String
  | .unknownNode _ => "retype::tree::unknown_node"
  | .detached _ => "retype::tree::detached"
  | .alreadyAttached _ => "retype::tree::already_attached"
  | .corruptParent .. => "retype::tree::corrupt_parent"

/-- The error in words. -/
def message : EditError → String
  | .unknownNode node => node.text ++ " does not exist in this tree"
  | .detached node => node.text ++ " has no parent, so it cannot be replaced in place"
  | .alreadyAttached node => node.text ++ " is already attached to a parent"
  | .corruptParent child parent =>
    child.text ++ " is not a child of its recorded parent " ++ parent.text

/-- What to do about the error. -/
def help? : EditError → Option String
  | .detached _ =>
    some "only attached expressions can be replaced; attach the node to a parent first"
  | .alreadyAttached _ =>
    some "a node has exactly one parent; use `wrap_expr` to wrap an attached node"
  | .unknownNode _ | .corruptParent .. => none

end EditError

namespace Arena

/-- Puts `new` in the first slot of `parent` that holds `old`, or gives none if no slot does. -/
def replaceSlot? (a : Arena) (parent : NodeId) (old new : ExprId) : Option Arena :=
  match parent with
  | .expr p => do
    let node ← a.exprs[p.index]?
    return a.setExprKind p (← node.kind.replaceFirst? old new)
  | .stmt p => do
    let node ← a.stmts[p.index]?
    return a.setStmtKind p (← node.kind.replaceFirst? old new)

/-- The parent of an expression; none also for one that the arena does not have. -/
def parentOf? (a : Arena) (e : ExprId) : Option NodeId := a.exprs[e.index]?.bind (·.parent)

/-- Puts `new` in the place of `old` below `parent`. If `old` got another parent meanwhile, it
keeps that one. -/
def rewire (a : Arena) (parent : NodeId) (old new : ExprId) : Except EditError Arena :=
  match a.replaceSlot? parent old new with
  | none => .error (.corruptParent (.expr old) parent)
  | some replaced =>
    let freed :=
      if replaced.parentOf? old = some parent then replaced.setExprParent old none else replaced
    .ok (freed.setExprParent new (some parent))

end Arena

namespace Tree

/-- Fails for an expression that the tree does not have. -/
def requireExpr (t : Tree) (e : ExprId) : Except EditError Unit :=
  if t.contains (.expr e) then .ok () else .error (.unknownNode (.expr e))

/-- Puts `new` in the place of `old` below `parent`. -/
def rewire (t : Tree) (parent : NodeId) (old new : ExprId) : Except EditError Tree := do
  return { t with arena := ← t.arena.rewire parent old new }

/-- Puts `new`, which has no parent, in the place of `old`, which loses its parent. -/
def replaceExpr (t : Tree) (old new : ExprId) : Except EditError Tree := do
  t.requireExpr old
  t.requireExpr new
  if old = new then return t
  if (t.arena.parentOf? new).isSome then throw (.alreadyAttached (.expr new))
  match t.arena.parentOf? old with
  | none => throw (.detached (.expr old))
  | some parent => t.rewire parent old new

/-- What makes an expression out of another one, adding nodes to the tree. -/
abbrev Builder := Tree → ExprId → Except Fault (Tree × ExprId)

/-- Puts what the builder makes out of `old` in the place of `old`. The builder finds `old` without
a parent. A failure after that leaves the tree as the builder left it. -/
def wrapExpr (t : Tree) (old : ExprId) (build : Builder) :
    Except Fault (Tree × Except EditError ExprId) :=
  if t.contains (.expr old) then
    match t.arena.parentOf? old with
    | none => .ok (t, .error (.detached (.expr old)))
    | some parent => do
      let (built, new) ← build { t with arena := t.arena.setExprParent old none } old
      match built.requireExpr new with
      | .error error => return (built, .error error)
      | .ok () =>
        match built.rewire parent old new with
        | .error error => return (built, .error error)
        | .ok rewired => return (rewired, .ok new)
  else .ok (t, .error (.unknownNode (.expr old)))

end Tree

end ExprTyping
