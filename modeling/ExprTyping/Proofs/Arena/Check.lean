import ExprTyping.Proofs.Arena.WellFormed

/-!
# Checking an arena

An arena in which every node was made after what is below it, and in which parents and child slots
agree, is well-formed (`Arena.wellFormed_of_check`). `Arena.check` decides this node by node.
-/

namespace ExprTyping.Arena

variable {a : Arena} {p c n : NodeId}

/-- The number of nodes made before a node, if every node was made after what is below it. -/
def order (a : Arena) : NodeId → ℕ
  | .expr e => e.index
  | .stmt s => a.exprs.size + s.index

/-- Whether `c` has the parent `p` and was made before it. -/
def checkChild (a : Arena) (p c : NodeId) : Bool :=
  decide (a.parent c = .ok (some p)) && decide (a.order c < a.order p)

/-- Whether the children of the node are what the node should have as its children, and its parent,
if it has one, has it as a child. -/
def checkNode (a : Arena) (n : NodeId) : Bool :=
  (match a.children n with
    | .ok cs => decide cs.Nodup && cs.all (a.checkChild n)
    | .error _ => true) &&
  (match a.parent n with
    | .ok (some p) => (a.children p).toOption.any fun cs => cs.contains n
    | _ => true)

/-- Whether all nodes fit together. -/
def check (a : Arena) : Bool :=
  (List.range a.exprs.size).all (fun i => a.checkNode (.expr ⟨i⟩)) &&
  (List.range a.stmts.size).all (fun i => a.checkNode (.stmt ⟨i⟩))

theorem checkNode_of_check (h : a.check = true) (hn : a.contains n) : a.checkNode n = true := by
  rw [check, Bool.and_eq_true, List.all_eq_true, List.all_eq_true] at h
  cases n with
  | expr e => exact h.1 e.index (List.mem_range.2 (by simpa [contains] using hn))
  | stmt s => exact h.2 s.index (List.mem_range.2 (by simpa [contains] using hn))

theorem nodup_of_check (h : a.check = true) {cs : List NodeId} (hcs : a.children n = .ok cs) :
    cs.Nodup := by
  have hn := checkNode_of_check h (contains_of_children hcs)
  rw [checkNode, hcs] at hn
  simp only [Bool.and_eq_true, decide_eq_true_eq] at hn
  exact hn.1.1

theorem child_of_check (h : a.check = true) (hc : a.Child p c) :
    a.Parent c p ∧ a.order c < a.order p := by
  obtain ⟨cs, hcs, hmem⟩ := hc
  have hp := checkNode_of_check h (contains_of_children hcs)
  rw [checkNode, hcs] at hp
  simp only [Bool.and_eq_true, List.all_eq_true] at hp
  have hcheck := hp.1.2 c hmem
  rw [checkChild, Bool.and_eq_true, decide_eq_true_eq, decide_eq_true_eq] at hcheck
  exact hcheck

theorem parent_of_check (h : a.check = true) (hp : a.Parent c p) : a.Child p c := by
  have hc := checkNode_of_check h (contains_of_parent hp)
  rw [checkNode, show a.parent c = .ok (some p) from hp, Bool.and_eq_true] at hc
  obtain ⟨cs, hcs, hmem⟩ := (Option.any_eq_true _ _).1 hc.2
  refine ⟨cs, ?_, List.contains_iff_mem.1 hmem⟩
  cases hchildren : a.children p with
  | ok l =>
    rw [hchildren] at hcs
    cases hcs
    rfl
  | error f => rw [hchildren] at hcs; cases hcs

/-- An arena that passes the check is well-formed. -/
theorem wellFormed_of_check (h : a.check = true) : a.WellFormed where
  contains_child _ _ hc := contains_of_parent (child_of_check h hc).1
  contains_parent c p hp := by
    obtain ⟨cs, hcs, -⟩ := parent_of_check h hp
    exact contains_of_children hcs
  nodup_children _ _ hcs := nodup_of_check h hcs
  child_iff_parent _ _ := ⟨fun hc => (child_of_check h hc).1, parent_of_check h⟩
  acyclic n hn := by
    have order_lt : ∀ {c p}, Relation.TransGen a.Parent c p → a.order c < a.order p := by
      intro c p hcp
      induction hcp with
      | single hp => exact (child_of_check h (parent_of_check h hp)).2
      | tail _ hp ih => exact ih.trans (child_of_check h (parent_of_check h hp)).2
    exact absurd (order_lt hn) (lt_irrefl _)

end ExprTyping.Arena
