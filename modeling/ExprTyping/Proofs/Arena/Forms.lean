import ExprTyping.Proofs.Arena.Changes
import ExprTyping.Proofs.Arena.Climb
import ExprTyping.Proofs.Arena.Reading

/-!
# Scopes and forms

Whether names can be declared in a statement is decided when the statement is made: they can in a
block and in a loop over a collection. An arena whose statements were made and not overwritten
since has its scopes by form (`Arena.ScopedByForm`).
-/

namespace ExprTyping

namespace Arena

variable {a b : Arena}

/-- Names can be declared in blocks and in loops over a collection, and in no other statement. -/
def ScopedByForm (a : Arena) : Prop := ∀ node ∈ a.stmts, node.ownsScope = node.kind.opensScope

instance : Decidable a.ScopedByForm :=
  inferInstanceAs (Decidable (∀ node ∈ a.stmts, node.ownsScope = node.kind.opensScope))

namespace ScopedByForm

theorem adoptExpr {parent : NodeId} {e : ExprId} (h : a.ScopedByForm)
    (hb : a.adoptExpr parent e = .ok b) : b.ScopedByForm := by
  rw [Arena.adoptExpr] at hb
  cases he : a.expr e with
  | error fault => rw [he] at hb; cases hb
  | ok node =>
    rw [he] at hb
    cases hb
    exact h

theorem adoptStmt {parent s : StmtId} (h : a.ScopedByForm)
    (hb : a.adoptStmt parent s = .ok b) : b.ScopedByForm := by
  rw [Arena.adoptStmt] at hb
  cases hs : a.stmt s with
  | error fault => rw [hs] at hb; cases hb
  | ok node =>
    rw [hs] at hb
    cases hb
    intro node hnode
    have hnode : node ∈ a.stmts.modify s.index fun node => { node with parent := some parent } :=
      hnode
    obtain ⟨i, hi, rfl⟩ := Array.mem_iff_getElem.1 hnode
    have hform := h _ (Array.getElem_mem (by simpa using hi : i < a.stmts.size))
    rw [Array.getElem_modify]
    split_ifs
    · exact hform
    · exact hform

/-- A new expression changes no scope. -/
theorem addExpr {kind : Expr ExprId} {e : ExprId} (h : a.ScopedByForm)
    (hb : a.addExpr kind = .ok (b, e)) : b.ScopedByForm := by
  rw [Arena.addExpr] at hb
  simp only [bind, Except.bind] at hb
  split at hb
  · cases hb
  · rename_i c hc
    cases hb
    exact foldlM_invariant (fun _ _ _ _ => adoptExpr) (s := { a with exprs := a.exprs.push { kind } })
      h hc

/-- A new statement has a scope if its form says so. -/
theorem addStmt {kind : Stmt ExprId StmtId} {s : StmtId} (h : a.ScopedByForm)
    (hb : a.addStmt kind = .ok (b, s)) : b.ScopedByForm := by
  have hpush : ScopedByForm
      { a with stmts := a.stmts.push { kind, ownsScope := kind.opensScope } } := by
    intro node hnode
    rcases Array.mem_push.1 hnode with hnode | rfl
    · exact h node hnode
    · rfl
  rw [Arena.addStmt] at hb
  simp only [bind, Except.bind] at hb
  split at hb
  · cases hb
  rename_i c hc
  have hadopted : c.ScopedByForm := foldlM_invariant (fun _ _ _ _ => adoptExpr) hpush hc
  split at hb
  · cases hb
  rename_i d hd
  cases hb
  exact foldlM_invariant (fun _ _ _ _ => adoptStmt) hadopted hd

/-- In an arena with scopes by form, the form of a program says whether it has a scope. -/
theorem opensScope_eq (h : a.ScopedByForm) {P : Program} (hP : a.Holds P) :
    P.shape.opensScope = a.owns P.id := by
  obtain ⟨parent, ownsScope, hnode⟩ := hP.exists_node
  have hform := h _ (Array.mem_of_getElem? (stmt_eq_ok_iff.1 hnode))
  rw [owns_eq hnode, hform, Stmt.opensScope_map]

end ScopedByForm
end Arena
end ExprTyping
