import ExprTyping.Proofs.Arena.WellFormed
import ExprTyping.Proofs.Syntax.Replacement

/-!
# Children and the slot that is rewritten

The children of a node are listed by `Expr.slots`, `Stmt.exprSlots` and `Stmt.stmtSlots`, and an edit
goes through the slots on its own, by `Expr.replaceFirst?` and `Stmt.replaceFirst?`. Both see the
same slots in the same order: the edit succeeds exactly for the children that are expressions, it
changes the first of the children that is to be replaced, and nothing else of the node
(`replaceFirst?_agrees_children`).
-/

namespace ExprTyping

/-! ## The first occurrence -/

/-- The list `ys` is `xs` with `new` in the place of the first `old`. -/
def FirstReplaced {α : Type} (old new : α) (xs ys : List α) : Prop :=
  ∃ before after, xs = before ++ old :: after ∧ old ∉ before ∧ ys = before ++ new :: after

section

variable {α β : Type} [DecidableEq α] [DecidableEq β] {old new : α} {xs ys zs : List α}

theorem firstReplaced_iff : FirstReplaced old new xs ys ↔ old ∈ xs ∧ ys = xs.replace old new := by
  constructor
  · rintro ⟨before, after, rfl, hbefore, rfl⟩
    refine ⟨by simp, ?_⟩
    rw [List.replace_append, if_neg hbefore, List.replace_cons_self]
  · rintro ⟨hold, rfl⟩
    exact exists_replace_eq hold new

theorem firstReplaced_map {f : α → β} (hf : Function.Injective f) :
    FirstReplaced (f old) (f new) (xs.map f) (ys.map f) ↔ FirstReplaced old new xs ys := by
  rw [firstReplaced_iff, firstReplaced_iff, replace_map hf, List.mem_map_of_injective hf,
    (List.map_injective_iff.2 hf).eq_iff]

/-- What stands behind and holds no `old` plays no part. -/
theorem firstReplaced_append (h : old ∉ zs) :
    FirstReplaced old new (xs ++ zs) (ys ++ zs) ↔ FirstReplaced old new xs ys := by
  rw [firstReplaced_iff, firstReplaced_iff, List.mem_append, or_iff_left h]
  refine and_congr_right fun hold => ?_
  rw [List.replace_append_left hold, List.append_left_inj]

end

/-! ## Children of a layer -/

/-- The nodes directly below an expression of this kind, in source order. -/
def Expr.children (k : Expr ExprId) : List NodeId := k.slots.map .expr

/-- The nodes directly below a statement of this kind, in source order. -/
def Stmt.children (k : Stmt ExprId StmtId) : List NodeId :=
  k.exprSlots.map .expr ++ k.stmtSlots.map .stmt

variable {old new : ExprId}

namespace Expr

variable {k k' : Expr ExprId}

theorem mem_children : .expr old ∈ k.children ↔ old ∈ k.slots :=
  List.mem_map_of_injective fun _ _ => NodeId.expr.inj

theorem replaceFirst?_iff_children : k.replaceFirst? old new = some k' ↔
    k'.form = k.form ∧ FirstReplaced (.expr old) (.expr new) k.children k'.children := by
  rw [children, children, firstReplaced_map fun _ _ => NodeId.expr.inj, firstReplaced_iff,
    replaceFirst?_eq_some_iff, and_left_comm]

end Expr

namespace Stmt

variable {k k' : Stmt ExprId StmtId}

theorem mem_children : .expr old ∈ k.children ↔ old ∈ k.exprSlots := by
  simp [children]

theorem replaceFirst?_iff_children : k.replaceFirst? old new = some k' ↔
    k'.form = k.form ∧ FirstReplaced (.expr old) (.expr new) k.children k'.children := by
  rw [replaceFirst?_eq_some_iff, and_left_comm]
  refine and_congr_right fun hform => ?_
  -- the inner statements come behind all expressions, and they are part of the form
  rw [children, children, stmtSlots_of_form hform, firstReplaced_append (by simp),
    firstReplaced_map fun _ _ => NodeId.expr.inj, firstReplaced_iff]

end Stmt

/-! ## Children of a node -/

namespace Arena

variable {a : Arena}

theorem children_eq_expr {e : ExprId} {node : ExprNode} (h : a.expr e = .ok node) :
    a.children (.expr e) = .ok node.kind.children := children_of_expr h

theorem children_eq_stmt {s : StmtId} {node : StmtNode} (h : a.stmt s = .ok node) :
    a.children (.stmt s) = .ok node.kind.children := children_of_stmt h

end Arena

/-- In expressions and statements of any kind, `old` can be replaced exactly if it is one of the
children. The result is what differs from the node in the first child `old`, which is `new`, and in
nothing else. Where `old` is no child, the way through the slots changes nothing. -/
theorem replaceFirst?_agrees_children (old new : ExprId) :
    (∀ k : Expr ExprId,
      ((k.replaceFirst? old new).isSome ↔ .expr old ∈ k.children) ∧
      (∀ k', k.replaceFirst? old new = some k' ↔
        k'.form = k.form ∧ FirstReplaced (.expr old) (.expr new) k.children k'.children) ∧
      (.expr old ∉ k.children → (k.mapM (swapFirst old new)).run false = (k, false))) ∧
    ∀ k : Stmt ExprId StmtId,
      ((k.replaceFirst? old new).isSome ↔ .expr old ∈ k.children) ∧
      (∀ k', k.replaceFirst? old new = some k' ↔
        k'.form = k.form ∧ FirstReplaced (.expr old) (.expr new) k.children k'.children) ∧
      (.expr old ∉ k.children → (k.mapExprM (swapFirst old new)).run false = (k, false)) := by
  refine ⟨fun k => ⟨?_, fun k' => Expr.replaceFirst?_iff_children, fun hold => ?_⟩,
    fun k => ⟨?_, fun k' => Stmt.replaceFirst?_iff_children, fun hold => ?_⟩⟩
  · rw [Option.isSome_iff_ne_none, ne_eq, Expr.replaceFirst?_eq_none, not_not, Expr.mem_children]
  · exact Expr.run_mapM_of_not_mem (mt Expr.mem_children.2 hold) new
  · rw [Option.isSome_iff_ne_none, ne_eq, Stmt.replaceFirst?_eq_none, not_not, Stmt.mem_children]
  · exact Stmt.run_mapExprM_of_not_mem (mt Stmt.mem_children.2 hold) new

/-- Of an operand that is a value and a key, the value comes first. -/
example : (Expr.dictionaryLiteral [(⟨0⟩, ⟨1⟩), (⟨1⟩, ⟨2⟩)]).replaceFirst? (⟨1⟩ : ExprId) ⟨3⟩ =
    some (.dictionaryLiteral [(⟨0⟩, ⟨3⟩), (⟨1⟩, ⟨2⟩)]) := by decide

end ExprTyping
