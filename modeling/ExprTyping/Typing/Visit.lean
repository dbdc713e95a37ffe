import ExprTyping.Typing.Judgement

/-!
# Visiting a program

A visit goes through a program in source order. An expression is visited after its operands, and
the verdict on it is noted and reported at once. A statement declares its names on the way: a
declaration all of its names before its initializers are visited, a loop its variable between the
iterated expression and the body.
-/

namespace ExprTyping

/-- How far a visit has come. -/
structure Progress where
  notes : Notes
  diagnostics : List Diagnostic := []
  deriving Repr

namespace Progress

/-- Reports an issue about a node. -/
def report (p : Progress) (node : NodeId) (issue : Option Issue) : Progress :=
  { p with diagnostics := p.diagnostics ++ (issue.map (⟨·, node⟩)).toList }

/-- Notes what a call settles about its callee. -/
def settleCallee (p : Progress) (kind : Expr ExprId) (note : Option ExprNote) : Progress :=
  match kind.callee?, note with
  | some callee, some note => { p with notes := p.notes.setExpr callee note }
  | _, _ => p

/-- Notes and reports the verdict on an expression. -/
def conclude (p : Progress) (e : ExprId) (kind : Expr ExprId) (verdict : Verdict) : Progress :=
  let settled := p.settleCallee kind verdict.callee
  { settled with notes := settled.notes.setExpr e verdict.note }.report (.expr e) verdict.issue

/-- Declares names in a statement. -/
def declare (p : Progress) (s : StmtId) (definitions : List Definition) : Progress :=
  { p with notes := p.notes.recordAll s definitions }

end Progress

/-- A step of a visit. -/
abbrev Visit (α : Type) := StateT Progress (Except Fault) α

namespace Setting

/-- The type that an expression keeps because it has one already. -/
def keptType (s : Setting) (notes : Notes) (e : ExprId) : Option Ty :=
  if s.skipsResolved then notes.type e else none

/-- Visits an expression to the given depth and returns its type. -/
def visitExprWithin (s : Setting) : Nat → ExprId → Visit (Option Ty)
  | 0, _ => throw .endless
  | depth + 1, e => do
    let node ← s.arena.expr e
    match s.keptType (← get).notes e with
    | some type => return some type
    | none =>
      let operands ← node.kind.mapM fun x => return ⟨x, ← s.visitExprWithin depth x⟩
      let verdict ← s.judge (← get).notes e operands
      modify fun p => p.conclude e node.kind verdict
      return verdict.type

/-- Visits an expression and returns its type. A path down that meets no expression twice meets at
most all of them. -/
def visitExpr (s : Setting) (e : ExprId) : Visit (Option Ty) :=
  s.visitExprWithin (s.arena.exprs.size + 1) e

/-- Declares the variable of a loop: in the body, if names can be declared there, and otherwise in
the loop. -/
def bindLoop (s : Setting) (loop body : StmtId) (element : Ty) : Pattern → Visit Unit
  | .identifier name => do
    let owner := if (← s.arena.stmt body).ownsScope then body else loop
    modify fun p => p.declare owner [⟨name, element⟩]
  | .wildcard => return
  | .tuple items =>
    modify fun p =>
      p.report (.stmt loop) (some (.unsupportedLoopPattern (Pattern.tuple items).render))

/-- Declares the variables of a statement in the nearest statement that can hold them. -/
def declareVariables (s : Setting) (stmt : StmtId)
    (declarations : List (VariableDeclaration ExprId)) : Visit Unit := do
  match ← s.arena.nearestScope (.stmt stmt) with
  | some owner => modify fun p => p.declare owner (declarations.map fun d => ⟨d.name, d.type⟩)
  | none => return

/-- Visits a statement to the given depth. -/
def visitStmtWithin (s : Setting) : Nat → StmtId → Visit Unit
  | 0, _ => throw .endless
  | depth + 1, stmt => do
    match (← s.arena.stmt stmt).kind with
    | .block body => body.forM (s.visitStmtWithin depth)
    | .conditional condition body otherwise =>
      let _ ← s.visitExpr condition
      s.visitStmtWithin depth body
      otherwise.forM (s.visitStmtWithin depth)
    | .whileLoop condition body =>
      let _ ← s.visitExpr condition
      s.visitStmtWithin depth body
    | .forIn pattern iterated body =>
      let (element, issue) := Rule.loopElement s.catalog (← s.visitExpr iterated)
      modify fun p => p.report (.stmt stmt) issue
      s.bindLoop stmt body element pattern
      s.visitStmtWithin depth body
    | .variables declarations =>
      s.declareVariables stmt declarations
      declarations.forM fun d => d.initializer.forM fun x => discard (s.visitExpr x)
    | .expressions items => items.forM fun x => discard (s.visitExpr x)
    | .returning value => value.forM fun x => discard (s.visitExpr x)
    | .breaking | .continuing => return

/-- Visits a statement and everything in it. -/
def visitStmt (s : Setting) (stmt : StmtId) : Visit Unit :=
  s.visitStmtWithin (s.arena.stmts.size + 1) stmt

end Setting

end ExprTyping
