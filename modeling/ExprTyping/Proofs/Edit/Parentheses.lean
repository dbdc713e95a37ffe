import ExprTyping.Proofs.Arena.Enclosure
import ExprTyping.Tree.Edit

/-!
# Wrapping in parentheses

The builder `Tree.parenthesize` wraps an expression in parentheses. It succeeds wherever the
expression has a parent (`Tree.exists_wrapExpr_parenthesize`). When the builder is done, the
expression stands below the new node and still in its old slot (`Arena.Parenthesized`); then the new
node takes the slot (`Arena.Reslots`).
-/

namespace ExprTyping

namespace Arena

variable {a : Arena} {e p x y : ExprId} {q : NodeId} {s : StmtId}

/-- The arena with parentheses around `e` that have no parent. -/
structure Parenthesized (a c : Arena) (e p : ExprId) : Prop where
  fresh : a.contains (.expr p) = false
  contains : ∀ n, c.contains n = (decide (n = .expr p) || a.contains n)
  expr_new : c.expr p = .ok ⟨.parens e, none⟩
  expr_old : ∀ x, x ≠ p → c.expr x = (a.expr x).map fun node =>
    ⟨node.kind, if x = e then some (.expr p) else node.parent⟩
  stmt : ∀ s, c.stmt s = a.stmt s

/-- An expression can be put in parentheses that have no parent. -/
theorem exists_parenthesized (he : a.contains (.expr e)) :
    ∃ c p, (a.setExprParent e none).addExpr (.parens e) = .ok (c, p) ∧ a.Parenthesized c e p := by
  obtain ⟨node, hnode⟩ := exists_expr he
  have hne : e ≠ ⟨a.exprs.size⟩ := by
    rintro rfl
    simp [contains] at he
  generalize hf : a.setExprParent e none = f
  have hf_expr : ∀ x, f.expr x =
      (a.expr x).map fun node => if e = x then { node with parent := none } else node :=
    fun x => hf ▸ a.expr_setExprParent e x none
  have hsize : f.exprs.size = a.exprs.size := by simp [← hf, setExprParent]
  generalize hg : { f with exprs := f.exprs.push { kind := .parens e } } = g
  have hg_expr : ∀ x, g.expr x = if x = ⟨a.exprs.size⟩ then .ok ⟨.parens e, none⟩ else f.expr x :=
    fun x => by rw [← hg, expr_push, hsize]
  refine ⟨g.setExprParent e (some (.expr ⟨a.exprs.size⟩)), ⟨a.exprs.size⟩, ?_, ?_⟩
  · have hadopt : g.adoptExpr (.expr ⟨a.exprs.size⟩) e =
        .ok (g.setExprParent e (some (.expr ⟨a.exprs.size⟩))) := by
      rw [adoptExpr, hg_expr, if_neg hne, hf_expr, hnode]
      rfl
    rw [addExpr, hg, hsize, Expr.slots, List.foldlM_cons, hadopt]
    rfl
  · exact {
      fresh := by simp [contains]
      contains := fun n => by
        rw [contains_setExprParent, ← hg, (f.pushes_expr _).contains, hsize, ← hf,
          contains_setExprParent]
      expr_new := by
        rw [expr_setExprParent, hg_expr, if_pos rfl]
        simp [Except.map, hne]
      expr_old := fun x hx => by
        rw [expr_setExprParent, hg_expr, if_neg hx, hf_expr]
        cases a.expr x with
        | error fault => rfl
        | ok node =>
          by_cases h : x = e
          · simp [Except.map, h]
          · simp [Except.map, h, Ne.symm h]
      stmt := fun s => by rw [← hf] at hg; rw [← hg]; rfl }

theorem map_enclosed_of_not_mem {k : Expr ExprId} (h : e ∉ k.slots) : k.map (enclosed e p) = k :=
  Expr.map_id_of_slots fun x hx => if_neg fun heq : x = e => h (heq ▸ hx)

theorem map_enclosed_of_not_mem_stmt {k : Stmt ExprId StmtId} (h : e ∉ k.exprSlots) :
    k.map (enclosed e p) id = k :=
  Stmt.map_id_of_slots (fun x hx => if_neg fun heq : x = e => h (heq ▸ hx)) fun _ _ => rfl

namespace WellFormed

theorem not_mem_slots (wf : a.WellFormed) {node : ExprNode} (hq : a.Parent (.expr e) q)
    (hx : a.expr x = .ok node) (hne : q ≠ .expr x) : e ∉ node.kind.slots := fun hmem =>
  hne (hq.unique ((wf.child_iff_parent _ _).1 ((child_expr_iff hx).2 ⟨e, hmem, rfl⟩)))

theorem not_mem_exprSlots (wf : a.WellFormed) {node : StmtNode} (hq : a.Parent (.expr e) q)
    (hs : a.stmt s = .ok node) (hne : q ≠ .stmt s) : e ∉ node.kind.exprSlots := fun hmem =>
  hne (hq.unique ((wf.child_iff_parent _ _).1 ((child_stmt_iff hs).2 (.inl ⟨e, hmem, rfl⟩))))

end WellFormed

/-- In `d`, the parentheses `p` stand in the slot in which `e` stands in `c`. -/
structure Reslots (c d : Arena) (e p : ExprId) : Prop where
  contains : ∀ n, d.contains n = c.contains n
  expr_new : d.expr p = c.expr p
  expr_old : ∀ x, x ≠ p → d.expr x =
    (c.expr x).map fun node => { node with kind := node.kind.map (enclosed e p) }
  stmt : ∀ s, d.stmt s =
    (c.stmt s).map fun node => { node with kind := node.kind.map (enclosed e p) id }

namespace Parenthesized

variable {c : Arena} (h : a.Parenthesized c e p) (wf : a.WellFormed)
include h

theorem ne_of_contains (hx : a.contains (.expr x)) : x ≠ p := by
  rintro rfl
  rw [h.fresh] at hx
  cases hx

include wf

/-- No other expression has a slot for the parentheses. -/
theorem expr_of_ne (hq : a.Parent (.expr e) q) (hxp : x ≠ p) (hne : q ≠ .expr x) :
    (c.expr x).map (fun node => { node with kind := node.kind.map (enclosed e p) }) =
      c.expr x := by
  rw [h.expr_old x hxp]
  cases hx : a.expr x with
  | error fault => rfl
  | ok node => simp [Except.map, map_enclosed_of_not_mem (wf.not_mem_slots hq hx hne)]

/-- No other statement has a slot for the parentheses. -/
theorem stmt_of_ne (hq : a.Parent (.expr e) q) (hne : q ≠ .stmt s) :
    (c.stmt s).map (fun node => { node with kind := node.kind.map (enclosed e p) id }) =
      c.stmt s := by
  rw [h.stmt]
  cases hs : a.stmt s with
  | error fault => rfl
  | ok node => simp [Except.map, map_enclosed_of_not_mem_stmt (wf.not_mem_exprSlots hq hs hne)]

theorem exists_replaceSlot?_expr (hq : a.Parent (.expr e) (.expr y)) :
    ∃ d, c.replaceSlot? (.expr y) e p = some d ∧ c.Reslots d e p := by
  obtain ⟨node, hy⟩ := exists_expr (wf.contains_parent _ _ hq)
  have hyp := h.ne_of_contains (contains_of_expr hy)
  have hcy := h.expr_old y hyp
  rw [hy] at hcy
  have hslot : e ∈ node.kind.slots := by
    obtain ⟨x, hx, heq⟩ := (child_expr_iff hy).1 ((wf.child_iff_parent _ _).2 hq)
    cases heq
    exact hx
  have hnodup : node.kind.slots.Nodup := (wf.nodup_children _ _ (children_of_expr hy)).of_map _
  refine ⟨c.setExprKind y (node.kind.map (enclosed e p)), ?_, ?_⟩
  · exact replaceSlot?_expr_eq_some.2 ⟨_, _, hcy, Expr.replaceFirst?_eq_map hslot hnodup p, rfl⟩
  · exact {
      contains := contains_setExprKind c y _
      expr_new := by
        rw [expr_setExprKind, h.expr_new]
        simp [Except.map, hyp]
      expr_old := fun x hx => by
        rw [expr_setExprKind]
        by_cases hxy : y = x
        · subst hxy
          simp [hcy, Except.map]
        · rw [h.expr_of_ne wf hq hx fun heq => hxy (NodeId.expr.inj heq)]
          cases c.expr x <;> simp [Except.map, hxy]
      stmt := fun s => (h.stmt_of_ne wf hq (s := s) (by simp)).symm }

theorem exists_replaceSlot?_stmt (hq : a.Parent (.expr e) (.stmt s)) :
    ∃ d, c.replaceSlot? (.stmt s) e p = some d ∧ c.Reslots d e p := by
  obtain ⟨node, hs⟩ := exists_stmt (wf.contains_parent _ _ hq)
  have hcs := (h.stmt s).trans hs
  have hslot : e ∈ node.kind.exprSlots := by
    rcases (child_stmt_iff hs).1 ((wf.child_iff_parent _ _).2 hq) with ⟨x, hx, heq⟩ | ⟨t, ht, heq⟩
    · cases heq
      exact hx
    · cases heq
  have hnodup : node.kind.exprSlots.Nodup :=
    (List.nodup_append.1 (wf.nodup_children _ _ (children_of_stmt hs))).1.of_map _
  refine ⟨c.setStmtKind s (node.kind.map (enclosed e p) id), ?_, ?_⟩
  · exact replaceSlot?_stmt_eq_some.2 ⟨_, _, hcs, Stmt.replaceFirst?_eq_map hslot hnodup p, rfl⟩
  · exact {
      contains := contains_setStmtKind c s _
      expr_new := rfl
      expr_old := fun x hx => (h.expr_of_ne wf hq (x := x) hx (by simp)).symm
      stmt := fun t => by
        rw [stmt_setStmtKind]
        by_cases hst : s = t
        · subst hst
          simp [hcs, Except.map]
        · rw [h.stmt_of_ne wf hq fun heq => hst (NodeId.stmt.inj heq)]
          cases c.stmt t <;> simp [Except.map, hst] }

/-- The parentheses can be put in the slot of the expression. -/
theorem exists_replaceSlot? (hq : a.Parent (.expr e) q) :
    ∃ d, c.replaceSlot? q e p = some d ∧ c.Reslots d e p := by
  cases q with
  | expr y => exact h.exists_replaceSlot?_expr wf hq
  | stmt s => exact h.exists_replaceSlot?_stmt wf hq

/-- The parentheses can take the place of the expression below its parent. -/
theorem exists_rewire (hq : a.Parent (.expr e) q) :
    ∃ b, c.rewire q e p = .ok b ∧ a.Encloses b e p := by
  obtain ⟨d, hd, hreslots⟩ := h.exists_replaceSlot? wf hq
  obtain ⟨node, he⟩ := exists_expr (contains_of_parent hq)
  have hparent : node.parent = some q := Except.ok.inj ((parent_of_expr he).symm.trans hq)
  have hep := h.ne_of_contains (contains_of_expr he)
  have hqp : NodeId.expr p ≠ q := by
    rintro rfl
    exact h.ne_of_contains (wf.contains_parent _ _ hq) rfl
  -- the expression has got the parentheses as its parent, and keeps them
  have hde : d.parentOf? e = some (.expr p) := by
    rw [parentOf?_eq_some, Parent, parent_expr_eq, hreslots.expr_old e hep, h.expr_old e hep, he]
    simp [Except.map]
  refine ⟨d.setExprParent p (some q), ?_, ?_⟩
  · rw [rewire, hd]
    simp only [hde, Option.some.injEq, if_neg hqp]
  · exact {
      contains_self := contains_of_expr he
      fresh := h.fresh
      contains := fun n => by rw [contains_setExprParent, hreslots.contains, h.contains]
      expr_new := by
        rw [expr_setExprParent, hreslots.expr_new, h.expr_new, he]
        simp [Except.map, hparent]
      expr_old := fun x hx => by
        rw [expr_setExprParent, hreslots.expr_old x hx, h.expr_old x hx]
        cases a.expr x with
        | error fault => rfl
        | ok node => simp [Except.map, Ne.symm hx]
      stmt := fun s => (hreslots.stmt s).trans (by rw [h.stmt]) }

end Parenthesized

end Arena

/-- Puts an expression in parentheses. -/
def Tree.parenthesize : Tree.Builder := fun t x => t.addExpr (.parens x)

/-- An expression with a parent can be wrapped in parentheses. -/
theorem Tree.exists_wrapExpr_parenthesize {t : Tree} (wf : t.arena.WellFormed) {e : ExprId}
    {q : NodeId} (hq : t.arena.Parent (.expr e) q) :
    ∃ t' p, t.wrapExpr e Tree.parenthesize = .ok (t', .ok p) ∧ t'.notes = t.notes ∧
      t.arena.Encloses t'.arena e p := by
  have he : t.contains (.expr e) := Arena.contains_of_parent hq
  obtain ⟨c, p, hc, hparenthesized⟩ := Arena.exists_parenthesized he
  obtain ⟨b, hb, hencloses⟩ := hparenthesized.exists_rewire wf hq
  have hp : c.contains (.expr p) := by
    rw [hparenthesized.contains, decide_eq_true rfl, Bool.true_or]
  refine ⟨{ t with arena := b }, p, ?_, rfl, hencloses⟩
  have hbuild : Tree.parenthesize { t with arena := t.arena.setExprParent e none } e =
      .ok ({ t with arena := c }, p) := by
    rw [Tree.parenthesize, Tree.addExpr, hc]
    rfl
  have hrequire : Tree.requireExpr { t with arena := c } p = .ok () := if_pos hp
  have hrewire : Tree.rewire { t with arena := c } q e p = .ok { t with arena := b } := by
    rw [Tree.rewire, hb]
    rfl
  rw [Tree.wrapExpr, if_pos he, Arena.parentOf?_eq_some.2 hq]
  simp only [hbuild, bind, Except.bind, hrequire, hrewire]
  rfl

/-- Wrapping in parentheses that succeeds puts the expression in parentheses. -/
theorem Tree.encloses_of_wrapExpr {a : Arena} (wf : a.WellFormed) {e p : ExprId} {q : NodeId}
    (hq : a.Parent (.expr e) q) {t t' : Tree} (ha : t.arena = a)
    (h : t.wrapExpr e Tree.parenthesize = .ok (t', .ok p)) : a.Encloses t'.arena e p := by
  subst ha
  obtain ⟨t₁, p₁, hwrap, -, hencloses⟩ := Tree.exists_wrapExpr_parenthesize wf hq
  cases h.symm.trans hwrap
  exact hencloses

end ExprTyping
