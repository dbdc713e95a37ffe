import ExprTyping.Typing.Visit

/-!
# Resolving types

A `Resolver` types the programs of a tree and collects what it finds wrong.

* `Resolver.resolveTypes` first forgets what an earlier run left below a statement, that is, the
  declared names and the bindings of identifiers, and then visits the statement. What is declared
  around the statement stays and can be seen from inside.
* `Resolver.resolveType` visits a single expression and forgets nothing.

With `skipsResolved`, expressions that have a type keep it, their bindings and all below them.
-/

namespace ExprTyping

/-- Why nothing was resolved. -/
inductive ResolveError where
  /-- The tree does not have the node. -/
  | unknownNode (node : NodeId)
  /-- A node below could not be reached. -/
  | fault (reason : Fault)
  deriving DecidableEq, Repr

namespace ResolveError

/-- The identifier of the error, for tools. -/
def code? : ResolveError → Option String
  | .unknownNode _ => some "retype::resolve::unknown_node"
  | .fault _ => none

/-- The error in words. -/
def message : ResolveError → String
  | .unknownNode node => node.text ++ " does not exist in the tree being resolved"
  | .fault reason => reason.message

/-- What to do about the error. -/
def help? : ResolveError → Option String
  | .unknownNode _ => some "pass a handle minted by the same `Tree` that is being resolved"
  | .fault _ => none

end ResolveError

/-- What types the programs of a tree, with the diagnostics collected so far. -/
structure Resolver where
  catalog : Catalog
  intrinsics : Intrinsics := .none
  skipsResolved : Bool := false
  diagnostics : List Diagnostic := []

namespace Resolver

/-- What stays the same while the resolver types a program of this arena. -/
def setting (r : Resolver) (arena : Arena) : Setting :=
  ⟨arena, r.catalog, r.intrinsics, r.skipsResolved⟩

/-- The resolver without its diagnostics. -/
def clearDiagnostics (r : Resolver) : Resolver := { r with diagnostics := [] }

/-- Forgets the names declared in a statement, or the binding of an expression that is to be
visited. -/
def forget (r : Resolver) (notes : Notes) : NodeId → Notes
  | .stmt s => notes.setScope s {}
  | .expr e =>
    if r.skipsResolved && (notes.type e).isSome then notes
    else notes.setExpr e { notes.expr e with binding := none }

/-- Forgets what an earlier run left below a statement. -/
def purge (r : Resolver) (t : Tree) (root : StmtId) : Except Fault Notes :=
  return (← t.arena.nodes (.stmt root)).foldl r.forget t.notes

/-- Runs a visit on a tree. -/
def run {α : Type} (r : Resolver) (t : Tree) (notes : Notes) (visit : Setting → Visit α) :
    Except ResolveError (α × Tree × Resolver) :=
  match (visit (r.setting t.arena)).run ⟨notes, r.diagnostics⟩ with
  | .ok (result, p) =>
    .ok (result, { t with notes := p.notes }, { r with diagnostics := p.diagnostics })
  | .error reason => .error (.fault reason)

/-- Types every expression below a statement. -/
def resolveTypes (r : Resolver) (t : Tree) (root : StmtId) :
    Except ResolveError (Tree × Resolver) :=
  if t.contains (.stmt root) then
    match r.purge t root with
    | .ok notes => (r.run t notes (·.visitStmt root)).map (·.2)
    | .error reason => .error (.fault reason)
  else .error (.unknownNode (.stmt root))

/-- Types a single expression and what is below it. -/
def resolveType (r : Resolver) (t : Tree) (e : ExprId) :
    Except ResolveError (Option Ty × Tree × Resolver) :=
  if t.contains (.expr e) then r.run t t.notes (·.visitExpr e)
  else .error (.unknownNode (.expr e))

end Resolver

end ExprTyping
