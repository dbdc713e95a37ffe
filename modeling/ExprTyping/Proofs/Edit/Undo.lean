import ExprTyping.Proofs.Arena.Check
import ExprTyping.Proofs.Edit.Failure
import ExprTyping.Proofs.Syntax.Children

/-!
# Undoing a replacement

A replacement writes three entries of the arena: the slot, the parent of the expression that leaves
it and the parent of the one that gets it. The opposite replacement writes the same three entries
again. Writing an entry twice is the same as writing it once, and writing what is there changes
nothing, so the arena is as before as soon as the second replacement finds the slot of the first.

It does, because an expression without a parent stands in no slot: behind the replacement the
first slot with the new expression is the one that has just been written
(`Arena.replaceSlot?_undo`). So `Tree.replaceExpr_undo` needs no more than that every child slot has
its parent link.
-/

namespace ExprTyping

/-! ## Writing an entry of an array -/

section

variable {α : Type} {xs : Array α} {i j : ℕ} {f g : α → α}

theorem modify_modify : (xs.modify i f).modify i g = xs.modify i (g ∘ f) := by
  refine Array.ext (by simp) fun k hk _ => ?_
  simp only [Array.getElem_modify]
  split_ifs <;> rfl

theorem modify_comm (hne : i ≠ j) : (xs.modify i f).modify j g = (xs.modify j g).modify i f := by
  refine Array.ext (by simp) fun k hk _ => ?_
  simp only [Array.getElem_modify]
  split_ifs with hj hi
  · exact absurd (hi.trans hj.symm) hne
  all_goals rfl

theorem modify_eq_self (h : ∀ x ∈ xs[i]?, f x = x) : xs.modify i f = xs := by
  refine Array.ext (by simp) fun k hk hk' => ?_
  rw [Array.getElem_modify]
  split_ifs with hi
  · subst hi
    exact h _ (Array.getElem?_eq_getElem hk')
  · rfl

end

namespace Arena

variable {a b : Arena} {p : NodeId} {e x old new : ExprId}

/-! ## Writing a part of a node -/

theorem setExprParent_setExprParent (parent parent' : Option NodeId) :
    (a.setExprParent e parent).setExprParent e parent' = a.setExprParent e parent' := by
  rw [setExprParent, setExprParent, setExprParent, modify_modify]
  rfl

theorem setExprParent_comm (hne : e ≠ x) (parent parent' : Option NodeId) :
    (a.setExprParent e parent).setExprParent x parent' =
      (a.setExprParent x parent').setExprParent e parent := by
  have hindex : e.index ≠ x.index := fun heq => hne (ExprId.ext heq)
  rw [setExprParent, setExprParent, setExprParent, setExprParent, modify_comm hindex]

theorem setExprParent_parentOf? : a.setExprParent e (a.parentOf? e) = a := by
  rw [setExprParent, modify_eq_self]
  intro node hnode
  rw [parentOf?, Option.mem_def.1 hnode, Option.bind_some]

theorem setExprKind_setExprKind {node : ExprNode} (h : a.expr e = .ok node)
    (kind : Expr ExprId) : (a.setExprKind e kind).setExprKind e node.kind = a := by
  rw [setExprKind, setExprKind, modify_modify, modify_eq_self]
  intro other hother
  cases (expr_eq_ok_iff.1 h).symm.trans (Option.mem_def.1 hother)
  rfl

theorem setStmtKind_setStmtKind {s : StmtId} {node : StmtNode} (h : a.stmt s = .ok node)
    (kind : Stmt ExprId StmtId) : (a.setStmtKind s kind).setStmtKind s node.kind = a := by
  simp only [setStmtKind, modify_modify]
  rw [modify_eq_self]
  intro other hother
  cases (stmt_eq_ok_iff.1 h).symm.trans (Option.mem_def.1 hother)
  rfl

/-! ## Handing a parent over -/

/-- The arena after `p` has been taken from `old` as its parent and given to `new`. -/
def handOver (a : Arena) (p : NodeId) (old new : ExprId) : Arena :=
  (a.setExprParent old none).setExprParent new (some p)

theorem replaceSlot?_handOver (q : NodeId) (e x : ExprId) :
    (a.handOver p e x).replaceSlot? q old new =
      (a.replaceSlot? q old new).map (·.handOver p e x) := by
  rw [handOver, replaceSlot?_setExprParent, replaceSlot?_setExprParent, Option.map_map]
  rfl

theorem parent_handOver (hnew : a.contains (.expr new)) :
    (a.handOver p old new).Parent (.expr new) p := by
  rw [Parent, handOver, parent_setExprParent _ (by rwa [contains_setExprParent]), if_pos rfl]

theorem detached_handOver (hne : old ≠ new) (hold : a.contains (.expr old))
    (hnew : a.contains (.expr new)) : (a.handOver p old new).Detached (.expr old) := by
  rw [Detached, handOver, parent_setExprParent _ (by rwa [contains_setExprParent]),
    if_neg fun heq => hne (NodeId.expr.inj heq), parent_setExprParent _ hold, if_pos rfl]

/-- Of the four parents that are written, the last two count, and they are those of before. -/
theorem handOver_handOver (hne : old ≠ new) (hp : a.Parent (.expr old) p)
    (hnew : a.Detached (.expr new)) : (a.handOver p old new).handOver p new old = a := by
  have hold : a.parentOf? old = some p := parentOf?_eq_some.2 hp
  have hnone : a.parentOf? new = none := hnew.parentOf?_eq_none
  calc (a.handOver p old new).handOver p new old
      = ((a.setExprParent old none).setExprParent new none).setExprParent old (some p) := by
        rw [handOver, handOver, setExprParent_setExprParent]
    _ = (a.setExprParent new none).setExprParent old (some p) := by
        rw [setExprParent_comm hne, setExprParent_setExprParent]
    _ = a := by
        rw [← hnone, setExprParent_parentOf?, ← hold, setExprParent_parentOf?]

/-! ## Undoing a rewired slot -/

/-- If `new` stood in no slot of the node, the way back finds the slot in which it stands now. -/
theorem replaceSlot?_undo (h : a.replaceSlot? p old new = some b)
    (hnew : ¬ a.Child p (.expr new)) : b.replaceSlot? p new old = some a := by
  cases p with
  | expr q =>
    obtain ⟨node, kind, hq, hkind, rfl⟩ := replaceSlot?_expr_eq_some.1 h
    have hmem : new ∉ node.kind.slots := fun hmem =>
      hnew ⟨_, children_eq_expr hq, Expr.mem_children.2 hmem⟩
    have hq' : (a.setExprKind q kind).expr q = .ok { node with kind } := by
      rw [expr_setExprKind, hq]
      simp [Except.map]
    exact replaceSlot?_expr_eq_some.2 ⟨_, _, hq', Expr.replaceFirst?_undo hmem hkind,
      setExprKind_setExprKind hq kind⟩
  | stmt q =>
    obtain ⟨node, kind, hq, hkind, rfl⟩ := replaceSlot?_stmt_eq_some.1 h
    have hmem : new ∉ node.kind.exprSlots := fun hmem =>
      hnew ⟨_, children_eq_stmt hq, Stmt.mem_children.2 hmem⟩
    have hq' : (a.setStmtKind q kind).stmt q = .ok { node with kind } := by
      rw [stmt_setStmtKind, hq]
      simp [Except.map]
    exact replaceSlot?_stmt_eq_some.2 ⟨_, _, hq', Stmt.replaceFirst?_undo hmem hkind,
      setStmtKind_setStmtKind hq kind⟩

/-- If `old` has the parent `p`, rewiring changes the slot and hands the parent over. -/
theorem rewire_eq_ok_iff (hp : a.Parent (.expr old) p) : a.rewire p old new = .ok b ↔
    ∃ replaced, a.replaceSlot? p old new = some replaced ∧ replaced.handOver p old new = b := by
  rw [rewire]
  cases hslot : a.replaceSlot? p old new with
  | none => simp
  | some replaced =>
    have hparent : replaced.parentOf? old = some p :=
      parentOf?_eq_some.2 ((parent_of_replaceSlot? hslot _).trans hp)
    simp [hparent, handOver]

/-- Rewiring the slot the other way round changes the slot back and gives the parent back. -/
theorem rewire_undo (hne : old ≠ new) (hp : a.Parent (.expr old) p)
    (hnew : a.Detached (.expr new)) (hslot : ¬ a.Child p (.expr new))
    (h : a.rewire p old new = .ok b) :
    b.Detached (.expr old) ∧ b.Parent (.expr new) p ∧ b.rewire p new old = .ok a := by
  obtain ⟨replaced, hreplaced, rfl⟩ := (rewire_eq_ok_iff hp).1 h
  have hparents := parent_of_replaceSlot? hreplaced
  have hold' : replaced.contains (.expr old) := contains_of_parent ((hparents _).trans hp)
  have hnew' : replaced.contains (.expr new) := contains_of_parent ((hparents _).trans hnew)
  have hplaced : (replaced.handOver p old new).Parent (.expr new) p := parent_handOver hnew'
  refine ⟨detached_handOver hne hold' hnew', hplaced, (rewire_eq_ok_iff hplaced).2
    ⟨a.handOver p old new, ?_, ?_⟩⟩
  · rw [replaceSlot?_handOver, replaceSlot?_undo hreplaced hslot, Option.map_some]
  · exact handOver_handOver hne hp hnew

end Arena

namespace Tree

variable {t t' : Tree} {old new : ExprId}

/-- A replacement that succeeds can be undone: where every node in a slot has the node of the slot
as its parent, the opposite replacement succeeds and gives back the tree as it was. -/
theorem replaceExpr_undo (parents : ∀ p c, t.arena.Child p c → t.arena.Parent c p)
    (h : t.replaceExpr old new = .ok t') : t'.replaceExpr new old = .ok t := by
  by_cases hne : old = new
  · subst hne
    obtain rfl := eq_of_replaceExpr_self h
    exact h
  obtain ⟨p, hp, hnew, hrewire⟩ := replaceExpr_of_ne hne h
  obtain ⟨b, hb, hresult⟩ := bind_eq_ok_iff.1 hrewire
  cases hresult
  have hslot : ¬ t.arena.Child p (.expr new) := fun hslot => hnew.not_parent p (parents _ _ hslot)
  obtain ⟨hold', hp', hback⟩ := Arena.rewire_undo hne hp hnew hslot hb
  refine (replaceExpr_iff (Ne.symm hne)).2 ⟨hold', p, hp', ?_⟩
  rw [rewire, hback]
  rfl

/-- The `x` of `(x)` is replaced by the parentheses themselves, which are their own parent then.
This can be undone too. -/
theorem replaceExpr_undo_circular : ∃ t t' : Tree,
    (∀ p c, t.arena.Child p c → t.arena.Parent c p) ∧ t.replaceExpr ⟨0⟩ ⟨1⟩ = .ok t' ∧
    t'.arena.Parent (.expr ⟨1⟩) (.expr ⟨1⟩) ∧ t'.replaceExpr ⟨1⟩ ⟨0⟩ = .ok t := by
  have wf : Arena.WellFormed
      { exprs := #[⟨.identifier "x", some (.expr ⟨1⟩)⟩, ⟨.parens ⟨0⟩, none⟩] } :=
    Arena.wellFormed_of_check (by decide)
  have hparents := fun p c => (wf.child_iff_parent p c).1
  exact ⟨{ arena := _ }, _, hparents, rfl, rfl, replaceExpr_undo hparents rfl⟩

end Tree
end ExprTyping
