import ExprTyping.Tree.Arena
import Mathlib.Data.Finset.Card
import Mathlib.Data.Finset.Image
import Mathlib.Logic.Relation
import Mathlib.Tactic.Common

/-!
# Well-formed arenas

An arena is well-formed if it is a forest: stored handles name nodes, no node stands in two slots,
child slots and parent links say the same, and no node is above itself.

* `Arena.Below` is reachability through child slots. Two siblings have nothing below them in common
  (`WellFormed.eq_of_below`), so that what is done below one does not touch the other.
* The walks of the library carry a bound on their depth. In a well-formed arena every step down
  (or up) lowers a rank which is at most the number of nodes (`WellFormed.exists_exprRank` and its
  companions), so the bounds are never met.
-/

namespace ExprTyping

/-- In a finite relation without cycles every step lowers some rank, which is at most the number of
possible targets. -/
theorem exists_rank {α : Type} {r : α → α → Prop} (targets : Finset α)
    (mem : ∀ x y, r x y → y ∈ targets) (acyclic : ∀ x, ¬ Relation.TransGen r x x) :
    ∃ rank : α → ℕ, (∀ x, rank x ≤ targets.card) ∧ ∀ x y, r x y → rank y < rank x := by
  classical
  refine ⟨fun x => (targets.filter fun z => Relation.TransGen r x z).card,
    fun x => Finset.card_filter_le _ _, fun x y hxy => Finset.card_lt_card ?_⟩
  rw [Finset.ssubset_iff_of_subset]
  · refine ⟨y, Finset.mem_filter.2 ⟨mem x y hxy, .single hxy⟩, fun hy => ?_⟩
    exact acyclic y (Finset.mem_filter.1 hy).2
  · intro z hz
    obtain ⟨hz, hyz⟩ := Finset.mem_filter.1 hz
    exact Finset.mem_filter.2 ⟨hz, .head hxy hyz⟩

namespace Arena

variable {a : Arena}

/-! ## Steps -/

/-- The node `c` stands in a child slot of `p`. -/
def Child (a : Arena) (p c : NodeId) : Prop := ∃ cs, a.children p = .ok cs ∧ c ∈ cs

/-- The recorded parent of `c` is `p`. -/
def Parent (a : Arena) (c p : NodeId) : Prop := a.parent c = .ok (some p)

/-- The node `n` is reachable from `root` through child slots. -/
def Below (a : Arena) (root n : NodeId) : Prop := Relation.ReflTransGen a.Child root n

theorem expr_eq_ok_iff {e : ExprId} {node : ExprNode} :
    a.expr e = .ok node ↔ a.exprs[e.index]? = some node := by
  unfold expr
  cases a.exprs[e.index]? <;> simp

theorem stmt_eq_ok_iff {s : StmtId} {node : StmtNode} :
    a.stmt s = .ok node ↔ a.stmts[s.index]? = some node := by
  unfold stmt
  cases a.stmts[s.index]? <;> simp

theorem exists_expr {e : ExprId} (h : a.contains (.expr e)) : ∃ node, a.expr e = .ok node := by
  have hlt : e.index < a.exprs.size := by simpa [contains] using h
  exact ⟨_, expr_eq_ok_iff.2 (Array.getElem?_eq_getElem hlt)⟩

theorem exists_stmt {s : StmtId} (h : a.contains (.stmt s)) : ∃ node, a.stmt s = .ok node := by
  have hlt : s.index < a.stmts.size := by simpa [contains] using h
  exact ⟨_, stmt_eq_ok_iff.2 (Array.getElem?_eq_getElem hlt)⟩

theorem contains_of_expr {e : ExprId} {node : ExprNode} (h : a.expr e = .ok node) :
    a.contains (.expr e) := by
  obtain ⟨hlt, -⟩ := Array.getElem?_eq_some_iff.1 (expr_eq_ok_iff.1 h)
  simpa [contains] using hlt

theorem contains_of_stmt {s : StmtId} {node : StmtNode} (h : a.stmt s = .ok node) :
    a.contains (.stmt s) := by
  obtain ⟨hlt, -⟩ := Array.getElem?_eq_some_iff.1 (stmt_eq_ok_iff.1 h)
  simpa [contains] using hlt

theorem children_of_expr {e : ExprId} {node : ExprNode} (h : a.expr e = .ok node) :
    a.children (.expr e) = .ok (node.kind.slots.map .expr) := by
  rw [children, h]
  rfl

theorem children_of_stmt {s : StmtId} {node : StmtNode} (h : a.stmt s = .ok node) :
    a.children (.stmt s) =
      .ok (node.kind.exprSlots.map .expr ++ node.kind.stmtSlots.map .stmt) := by
  rw [children, h]
  rfl

theorem exists_children {n : NodeId} (h : a.contains n) : ∃ cs, a.children n = .ok cs := by
  cases n with
  | expr e =>
    obtain ⟨node, he⟩ := exists_expr h
    exact ⟨_, children_of_expr he⟩
  | stmt s =>
    obtain ⟨node, hs⟩ := exists_stmt h
    exact ⟨_, children_of_stmt hs⟩

theorem parent_of_expr {e : ExprId} {node : ExprNode} (h : a.expr e = .ok node) :
    a.parent (.expr e) = .ok node.parent := by
  rw [parent, h]
  rfl

theorem parent_of_stmt {s : StmtId} {node : StmtNode} (h : a.stmt s = .ok node) :
    a.parent (.stmt s) = .ok (node.parent.map .stmt) := by
  rw [parent, h]
  rfl

theorem exists_parent {n : NodeId} (hn : a.contains n) :
    ∃ p, a.parent n = .ok p := by
  cases n with
  | expr e =>
    obtain ⟨node, hnode⟩ := exists_expr hn
    exact ⟨_, parent_of_expr hnode⟩
  | stmt s =>
    obtain ⟨node, hnode⟩ := exists_stmt hn
    exact ⟨_, parent_of_stmt hnode⟩

theorem contains_of_children {n : NodeId} {cs : List NodeId} (h : a.children n = .ok cs) :
    a.contains n := by
  cases n with
  | expr e =>
    cases he : a.expr e with
    | ok node => exact contains_of_expr he
    | error f => rw [children, he] at h; cases h
  | stmt s =>
    cases hs : a.stmt s with
    | ok node => exact contains_of_stmt hs
    | error f => rw [children, hs] at h; cases h

theorem contains_of_parent {n : NodeId} {q : Option NodeId} (h : a.parent n = .ok q) :
    a.contains n := by
  cases n with
  | expr e =>
    cases he : a.expr e with
    | ok node => exact contains_of_expr he
    | error f => rw [parent, he] at h; cases h
  | stmt s =>
    cases hs : a.stmt s with
    | ok node => exact contains_of_stmt hs
    | error f => rw [parent, hs] at h; cases h

theorem parentExpr_of_expr {e : ExprId} {node : ExprNode} (h : a.expr e = .ok node) :
    a.parentExpr e =
      match node.parent with
      | some (.expr p) => .ok (some p)
      | _ => .ok none := by
  rw [parentExpr, h]
  rfl

theorem child_expr_iff {e : ExprId} {node : ExprNode} (h : a.expr e = .ok node) {c : NodeId} :
    a.Child (.expr e) c ↔ ∃ x ∈ node.kind.slots, c = .expr x := by
  simp [Child, children_of_expr h, eq_comm]

theorem child_stmt_iff {s : StmtId} {node : StmtNode} (h : a.stmt s = .ok node) {c : NodeId} :
    a.Child (.stmt s) c ↔
      (∃ x ∈ node.kind.exprSlots, c = .expr x) ∨ ∃ t ∈ node.kind.stmtSlots, c = .stmt t := by
  simp [Child, children_of_stmt h, eq_comm]

theorem Child.contains {p c : NodeId} (h : a.Child p c) : a.contains p := by
  obtain ⟨cs, hcs, -⟩ := h
  exact contains_of_children hcs

theorem Parent.unique {c p q : NodeId} (hp : a.Parent c p) (hq : a.Parent c q) : p = q := by
  have h : (Except.ok (some p) : Except Fault _) = .ok (some q) := hp.symm.trans hq
  simpa using h

theorem Below.refl (n : NodeId) : a.Below n n := Relation.ReflTransGen.refl

theorem Below.of_child {p c n : NodeId} (hc : a.Child p c) (h : a.Below c n) : a.Below p n :=
  Relation.ReflTransGen.head hc h

/-- A node below another one is the node itself or below one of its children. -/
theorem Below.eq_or_child {p n : NodeId} (h : a.Below p n) :
    n = p ∨ ∃ c, a.Child p c ∧ a.Below c n := by
  rcases Relation.ReflTransGen.cases_head h with h | ⟨c, hc, hn⟩
  · exact .inl h.symm
  · exact .inr ⟨c, hc, hn⟩

/-- Nothing but the node itself is below one without children. -/
theorem Below.eq_of_leaf {p n : NodeId} (h : a.Below p n) (hp : a.children p = .ok []) :
    n = p := by
  rcases h.eq_or_child with heq | ⟨c, ⟨cs, hcs, hc⟩, -⟩
  · exact heq
  · rw [hp] at hcs
    cases hcs
    cases hc

/-- Only expressions are below an expression. -/
theorem Below.of_expr {e : ExprId} {n : NodeId} (h : a.Below (.expr e) n) : ∃ x, n = .expr x := by
  induction h with
  | refl => exact ⟨e, rfl⟩
  | tail _ hc ih =>
    obtain ⟨x, rfl⟩ := ih
    obtain ⟨cs, hcs, hmem⟩ := hc
    cases hx : a.expr x with
    | error f => rw [children, hx] at hcs; cases hcs
    | ok node =>
      obtain ⟨y, -, rfl⟩ := (child_expr_iff hx).1 ⟨cs, hcs, hmem⟩
      exact ⟨y, rfl⟩

/-! ## Well-formed arenas -/

/-- The arena is a forest, and its parent links are the inverse of its child slots. -/
structure WellFormed (a : Arena) : Prop where
  /-- Every handle in a child slot names a node. -/
  contains_child : ∀ p c, a.Child p c → a.contains c
  /-- Every parent handle names a node. -/
  contains_parent : ∀ c p, a.Parent c p → a.contains p
  /-- No node stands in two slots of one node. By `child_iff_parent` it does not stand in slots of
  two nodes either. -/
  nodup_children : ∀ p cs, a.children p = .ok cs → cs.Nodup
  /-- The children of a node are those whose parent it is. -/
  child_iff_parent : ∀ p c, a.Child p c ↔ a.Parent c p
  /-- No node is above itself. -/
  acyclic : ∀ n, ¬ Relation.TransGen a.Parent n n

/-- The handles of the expressions. -/
def exprTargets (a : Arena) : Finset ExprId := (Finset.range a.exprs.size).image ExprId.mk

/-- The handles of the statements. -/
def stmtTargets (a : Arena) : Finset StmtId := (Finset.range a.stmts.size).image StmtId.mk

theorem mem_exprTargets {e : ExprId} (h : a.contains (.expr e)) : e ∈ a.exprTargets :=
  Finset.mem_image.2 ⟨e.index, by simpa [contains] using h, rfl⟩

theorem mem_stmtTargets {s : StmtId} (h : a.contains (.stmt s)) : s ∈ a.stmtTargets :=
  Finset.mem_image.2 ⟨s.index, by simpa [contains] using h, rfl⟩

theorem card_exprTargets_le : a.exprTargets.card ≤ a.exprs.size :=
  Finset.card_image_le.trans (Finset.card_range _).le

theorem card_stmtTargets_le : a.stmtTargets.card ≤ a.stmts.size :=
  Finset.card_image_le.trans (Finset.card_range _).le

/-- The handles of all nodes. -/
def targets (a : Arena) : Finset NodeId :=
  a.exprTargets.image .expr ∪ a.stmtTargets.image .stmt

theorem mem_targets {n : NodeId} (h : a.contains n) : n ∈ a.targets := by
  cases n with
  | expr e =>
    exact Finset.mem_union_left _ (Finset.mem_image.2 ⟨e, mem_exprTargets h, rfl⟩)
  | stmt s =>
    exact Finset.mem_union_right _ (Finset.mem_image.2 ⟨s, mem_stmtTargets h, rfl⟩)

theorem card_targets_le : a.targets.card ≤ a.size :=
  (Finset.card_union_le _ _).trans (Nat.add_le_add
    (Finset.card_image_le.trans card_exprTargets_le)
    (Finset.card_image_le.trans card_stmtTargets_le))

/-- Without a node above itself, steps up lower a rank. There are at most as many parents as nodes,
whether or not the parents are nodes. -/
theorem exists_rank_parent (acyclic : ∀ n, ¬ Relation.TransGen a.Parent n n) :
    ∃ rank : NodeId → ℕ, (∀ n, rank n ≤ a.size) ∧ ∀ c p, a.Parent c p → rank p < rank c := by
  let parents := a.targets.image fun c => (a.parent c).toOption.join.getD c
  have mem : ∀ c p, a.Parent c p → p ∈ parents := by
    intro c p hp
    have hparent : a.parent c = .ok (some p) := hp
    refine Finset.mem_image.2 ⟨c, mem_targets (contains_of_parent hparent), ?_⟩
    rw [hparent]
    rfl
  obtain ⟨rank, hle, hlt⟩ := exists_rank parents mem acyclic
  have hcard : parents.card ≤ a.size := Finset.card_image_le.trans card_targets_le
  exact ⟨rank, fun n => (hle n).trans hcard, hlt⟩

namespace WellFormed

theorem parent_eq_swap (wf : a.WellFormed) : a.Parent = Function.swap a.Child := by
  funext c p
  exact propext (wf.child_iff_parent p c).symm

/-- No node is below itself. -/
theorem acyclic_child (wf : a.WellFormed) (n : NodeId) : ¬ Relation.TransGen a.Child n n := by
  rw [← Relation.transGen_swap, ← wf.parent_eq_swap]
  exact wf.acyclic n

/-- The way down to a node is the way up from it. -/
theorem below_iff (wf : a.WellFormed) {root n : NodeId} :
    a.Below root n ↔ Relation.ReflTransGen a.Parent n root := by
  rw [wf.parent_eq_swap, Relation.reflTransGen_swap]
  rfl

theorem parentExpr_of_child (wf : a.WellFormed) {p c : ExprId}
    (h : a.Child (.expr p) (.expr c)) : a.parentExpr c = .ok (some p) := by
  have hp : a.parent (.expr c) = .ok (some (.expr p)) := (wf.child_iff_parent _ _).1 h
  cases hc : a.expr c with
  | error f => rw [parent, hc] at hp; cases hp
  | ok node =>
    rw [parent_of_expr hc] at hp
    rw [parentExpr_of_expr hc, Except.ok.inj hp]

theorem not_below_of_child (wf : a.WellFormed) {p c : NodeId} (hc : a.Child p c) :
    ¬ a.Below c p := fun h => wf.acyclic_child p (Relation.TransGen.head' hc h)

theorem contains_of_below (wf : a.WellFormed) {root n : NodeId} (hroot : a.contains root)
    (h : a.Below root n) : a.contains n := by
  cases h with
  | refl => exact hroot
  | tail _ hc => exact wf.contains_child _ _ hc

/-- Of two nodes above the same node, one is above the other. -/
theorem below_or_below (wf : a.WellFormed) {y z n : NodeId} (hy : a.Below y n)
    (hz : a.Below z n) : a.Below y z ∨ a.Below z y := by
  have unique : Relator.RightUnique a.Parent := fun _ _ _ hp hq => hp.unique hq
  rcases Relation.ReflTransGen.total_of_right_unique unique (wf.below_iff.1 hy)
    (wf.below_iff.1 hz) with h | h
  · exact .inr (wf.below_iff.2 h)
  · exact .inl (wf.below_iff.2 h)

/-- Two children with a common node below them are the same. -/
theorem eq_of_below (wf : a.WellFormed) {p y z n : NodeId} (hy : a.Child p y) (hz : a.Child p z)
    (hyn : a.Below y n) (hzn : a.Below z n) : y = z := by
  -- Both children are on the way up from the node, so one is below the other; between siblings
  -- that is a cycle through their parent.
  have key : ∀ {x w}, a.Child p x → a.Child p w → Relation.ReflTransGen a.Parent x w → x = w := by
    intro x w hx hw hxw
    rcases Relation.ReflTransGen.cases_head hxw with h | ⟨q, hq, hqw⟩
    · exact h
    · have hqp : q = p := hq.unique ((wf.child_iff_parent p x).1 hx)
      exact absurd (Relation.TransGen.head' ((wf.child_iff_parent p w).1 hw) (hqp ▸ hqw))
        (wf.acyclic w)
  rcases wf.below_or_below hyn hzn with h | h
  · exact (key hz hy (wf.below_iff.1 h)).symm
  · exact key hy hz (wf.below_iff.1 h)

/-- Of a statement and an expression above the same node, the statement is above the expression. -/
theorem below_of_below (wf : a.WellFormed) {s : StmtId} {x : ExprId} {n : NodeId}
    (hs : a.Below (.stmt s) n) (hx : a.Below (.expr x) n) : a.Below (.stmt s) (.expr x) := by
  rcases wf.below_or_below hs hx with h | h
  · exact h
  · obtain ⟨y, hy⟩ := h.of_expr
    cases hy

/-! ## Ranks -/

/-- Steps down from expressions lower a rank. -/
theorem exists_exprRank (wf : a.WellFormed) :
    ∃ rank : ExprId → ℕ, (∀ e, rank e ≤ a.exprs.size) ∧
      ∀ e x, a.Child (.expr e) (.expr x) → rank x < rank e := by
  obtain ⟨rank, hle, hlt⟩ := exists_rank (r := fun e x => a.Child (.expr e) (.expr x))
    a.exprTargets (fun e x h => mem_exprTargets (wf.contains_child _ _ h))
    fun e h => wf.acyclic_child _ (h.lift NodeId.expr fun _ _ h => h)
  exact ⟨rank, fun e => (hle e).trans card_exprTargets_le, hlt⟩

/-- Steps down from statements to statements lower a rank. -/
theorem exists_stmtRank (wf : a.WellFormed) :
    ∃ rank : StmtId → ℕ, (∀ s, rank s ≤ a.stmts.size) ∧
      ∀ s t, a.Child (.stmt s) (.stmt t) → rank t < rank s := by
  obtain ⟨rank, hle, hlt⟩ := exists_rank (r := fun s t => a.Child (.stmt s) (.stmt t))
    a.stmtTargets (fun s t h => mem_stmtTargets (wf.contains_child _ _ h))
    fun s h => wf.acyclic_child _ (h.lift NodeId.stmt fun _ _ h => h)
  exact ⟨rank, fun s => (hle s).trans card_stmtTargets_le, hlt⟩

/-- Steps down lower a rank. -/
theorem exists_rank_child (wf : a.WellFormed) :
    ∃ rank : NodeId → ℕ, (∀ n, rank n ≤ a.size) ∧ ∀ p c, a.Child p c → rank c < rank p := by
  obtain ⟨rank, hle, hlt⟩ := exists_rank (r := a.Child) a.targets
    (fun p c h => mem_targets (wf.contains_child _ _ h)) wf.acyclic_child
  exact ⟨rank, fun n => (hle n).trans card_targets_le, hlt⟩

/-- Steps up lower a rank. -/
theorem exists_rank_parent (wf : a.WellFormed) :
    ∃ rank : NodeId → ℕ, (∀ n, rank n ≤ a.size) ∧ ∀ c p, a.Parent c p → rank p < rank c :=
  Arena.exists_rank_parent wf.acyclic

/-- Every way down ends. -/
theorem wellFounded_child (wf : a.WellFormed) : WellFounded fun c p => a.Child p c := by
  obtain ⟨rank, -, hlt⟩ := wf.exists_rank_child
  exact Subrelation.wf (fun {c p} hc => hlt p c hc) (InvImage.wf rank Nat.lt_wfRel.wf)

/-- Induction over expressions, with the hypothesis for everything that is properly below. -/
@[elab_as_elim]
theorem expr_induct (wf : a.WellFormed) {motive : ExprId → Prop}
    (node : ∀ x, (∀ y, Relation.TransGen a.Child (.expr x) (.expr y) → motive y) → motive x)
    (x : ExprId) : motive x := by
  suffices ∀ n x, n = NodeId.expr x → motive x from this _ x rfl
  intro n
  induction n using wf.wellFounded_child.transGen.induction with
  | h n ih =>
    rintro x rfl
    exact node x fun y hy => ih _ (Relation.transGen_swap.2 hy) y rfl

/-- Induction over statements, with the hypothesis for the inner statements. -/
@[elab_as_elim]
theorem stmt_induct (wf : a.WellFormed) {motive : StmtId → Prop}
    (node : ∀ s, (∀ t, a.Child (.stmt s) (.stmt t) → motive t) → motive s) (s : StmtId) :
    motive s := by
  obtain ⟨rank, -, hlt⟩ := wf.exists_stmtRank
  induction hr : rank s using Nat.strong_induction_on generalizing s with
  | _ r ih => exact node s fun t ht => ih _ (hr ▸ hlt s t ht) t rfl

end WellFormed
end Arena
end ExprTyping
