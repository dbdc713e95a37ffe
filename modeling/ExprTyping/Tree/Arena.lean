import ExprTyping.Tree.Handle
import ExprTyping.Tree.Stmt

/-!
# The arena

An arena holds the nodes of a tree. Each node knows its operands by their handles, and keeps the
handle of its parent for the way up. The two are written at different times: making a node sets
the parent of its operands, and nothing keeps a node from being made an operand twice.

* `Arena.children` goes down one step, `Arena.nodes` lists everything below a node, each node
  before what is below it.
* `Arena.firstUpward` climbs from a node to the first statement that satisfies a condition.
-/

namespace ExprTyping

/-- An expression of a tree. -/
structure ExprNode where
  kind : Expr ExprId
  parent : Option NodeId := none
  deriving Repr

/-- A statement of a tree. -/
structure StmtNode where
  kind : Stmt ExprId StmtId
  parent : Option StmtId := none
  /-- Whether names can be declared in the statement. -/
  ownsScope : Bool
  deriving Repr

/-- The nodes of a tree. -/
structure Arena where
  exprs : Array ExprNode := #[]
  stmts : Array StmtNode := #[]
  deriving Repr

namespace Arena

/-- The number of nodes. -/
def size (a : Arena) : Nat := a.exprs.size + a.stmts.size

/-- The expression of a handle. -/
def expr (a : Arena) (e : ExprId) : Except Fault ExprNode :=
  match a.exprs[e.index]? with
  | some node => .ok node
  | none => .error .missingExpr

/-- The statement of a handle. -/
def stmt (a : Arena) (s : StmtId) : Except Fault StmtNode :=
  match a.stmts[s.index]? with
  | some node => .ok node
  | none => .error .missingStmt

/-- Whether the handle names a node of the arena. -/
def contains (a : Arena) : NodeId → Bool
  | .expr e => e.index < a.exprs.size
  | .stmt s => s.index < a.stmts.size

/-! ## One step up or down -/

/-- The parent of a node. -/
def parent (a : Arena) : NodeId → Except Fault (Option NodeId)
  | .expr e => return (← a.expr e).parent
  | .stmt s => return (← a.stmt s).parent.map .stmt

/-- The operands of an expression. -/
def operands (a : Arena) (e : ExprId) : Except Fault (List ExprId) :=
  return (← a.expr e).kind.slots

/-- The nodes directly below a node, in source order. -/
def children (a : Arena) : NodeId → Except Fault (List NodeId)
  | .expr e => return (← a.expr e).kind.slots.map .expr
  | .stmt s => do
    let kind := (← a.stmt s).kind
    return kind.exprSlots.map .expr ++ kind.stmtSlots.map .stmt

/-- The parent of an expression, if that is an expression too. -/
def parentExpr (a : Arena) (e : ExprId) : Except Fault (Option ExprId) := do
  match (← a.expr e).parent with
  | some (.expr p) => return some p
  | _ => return none

/-- Whether the expression is what its parent calls. -/
def isCallee (a : Arena) (e : ExprId) : Except Fault Bool := do
  match ← a.parentExpr e with
  | some p => return (← a.expr p).kind.callee? == some e
  | none => return false

/-- Whether the expression is what a member access, subscript, call or optional link is applied
to. -/
def isReceiver (a : Arena) (e : ExprId) : Except Fault Bool := do
  match ← a.parentExpr e with
  | some p => return (← a.expr p).kind.receiver? == some e
  | none => return false

/-! ## All the way up or down -/

/-- Climbs from a node to the first statement for which `pick` gives an answer. The number bounds
the nodes on the way. -/
def firstUpwardWithin {α : Type} (a : Arena) (pick : StmtId → StmtNode → Option α) :
    Nat → NodeId → Except Fault (Option α)
  | 0, _ => .error .endless
  | bound + 1, .expr e => do
    match (← a.expr e).parent with
    | some p => a.firstUpwardWithin pick bound p
    | none => return none
  | bound + 1, .stmt s => do
    let node ← a.stmt s
    match pick s node with
    | some answer => return some answer
    | none =>
      match node.parent with
      | some p => a.firstUpwardWithin pick bound (.stmt p)
      | none => return none

/-- Climbs from a node to the first statement for which `pick` gives an answer. A climb that meets
no node twice meets at most all of them. -/
def firstUpward {α : Type} (a : Arena) (pick : StmtId → StmtNode → Option α) (node : NodeId) :
    Except Fault (Option α) :=
  a.firstUpwardWithin pick (a.size + 1) node

/-- The nearest statement, from the node upward, in which names can be declared. -/
def nearestScope (a : Arena) (node : NodeId) : Except Fault (Option StmtId) :=
  a.firstUpward (fun s stmt => if stmt.ownsScope then some s else none) node

/-- A node and everything below it, to the given depth. -/
def nodesWithin (a : Arena) : Nat → NodeId → Except Fault (List NodeId)
  | 0, _ => .error .endless
  | depth + 1, node => do
    let below ← (← a.children node).mapM (a.nodesWithin depth)
    return node :: below.flatten

/-- A node and everything below it, each node before what is below it, in source order; nothing if
the arena does not have the node. On a path down that meets no node twice there are at most all of
them. -/
def nodes (a : Arena) (root : NodeId) : Except Fault (List NodeId) :=
  if a.contains root then a.nodesWithin (a.size + 1) root else .ok []

/-- Whether an optional link occurs among the expression and the receivers it is built on. -/
def spineHasLink (a : Arena) : Nat → ExprId → Except Fault Bool
  | 0, _ => .error .endless
  | bound + 1, e => do
    match (← a.expr e).kind with
    | .chain _ => return true
    | kind =>
      match kind.receiver? with
      | some x => a.spineHasLink bound x
      | none => return false

/-- Whether the expression is the outermost step of a chain of accesses with an optional link. -/
def closesChain (a : Arena) (e : ExprId) : Except Fault Bool := do
  if ← a.isReceiver e then return false
  a.spineHasLink (a.exprs.size + 1) e

/-! ## Changing nodes -/

/-- Gives an expression another parent. -/
def setExprParent (a : Arena) (e : ExprId) (parent : Option NodeId) : Arena :=
  { a with exprs := a.exprs.modify e.index fun node => { node with parent } }

/-- Gives a statement another parent. -/
def setStmtParent (a : Arena) (s : StmtId) (parent : Option StmtId) : Arena :=
  { a with stmts := a.stmts.modify s.index fun node => { node with parent } }

/-- Puts another expression in the place of one, which keeps its parent. -/
def setExprKind (a : Arena) (e : ExprId) (kind : Expr ExprId) : Arena :=
  { a with exprs := a.exprs.modify e.index fun node => { node with kind } }

/-- Puts another statement in the place of one, which keeps its parent and its scope. -/
def setStmtKind (a : Arena) (s : StmtId) (kind : Stmt ExprId StmtId) : Arena :=
  { a with stmts := a.stmts.modify s.index fun node => { node with kind } }

/-- Makes a node the parent of an expression. -/
def adoptExpr (parent : NodeId) (a : Arena) (e : ExprId) : Except Fault Arena := do
  let _ ← a.expr e
  return a.setExprParent e (some parent)

/-- Makes a statement the parent of a statement. -/
def adoptStmt (parent : StmtId) (a : Arena) (s : StmtId) : Except Fault Arena := do
  let _ ← a.stmt s
  return a.setStmtParent s (some parent)

/-- Adds an expression without a parent and makes it the parent of its operands. -/
def addExpr (a : Arena) (kind : Expr ExprId) : Except Fault (Arena × ExprId) := do
  let e : ExprId := ⟨a.exprs.size⟩
  let pushed := { a with exprs := a.exprs.push { kind } }
  return (← kind.slots.foldlM (adoptExpr (.expr e)) pushed, e)

/-- Adds a statement without a parent and makes it the parent of its expressions and inner
statements. -/
def addStmt (a : Arena) (kind : Stmt ExprId StmtId) : Except Fault (Arena × StmtId) := do
  let s : StmtId := ⟨a.stmts.size⟩
  let pushed := { a with stmts := a.stmts.push { kind, ownsScope := kind.opensScope } }
  let adopted ← kind.exprSlots.foldlM (adoptExpr (.stmt s)) pushed
  return (← kind.stmtSlots.foldlM (adoptStmt s) adopted, s)

end Arena

end ExprTyping
