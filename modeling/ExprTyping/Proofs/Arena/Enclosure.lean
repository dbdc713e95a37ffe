import ExprTyping.Proofs.Arena.Changes
import ExprTyping.Proofs.Arena.Climb
import ExprTyping.Proofs.Arena.Reading

/-!
# Parentheses around an expression

An expression that is put in parentheses gets a new node between itself and its parent.
`Arena.Encloses a b e p` says what this makes of the arena: every node of `a` stands in `b` as it
was, except that `p` stands in the slot of `e` (`enclosed`) and is the parent of `e`.

The new arena is well-formed if the old one is (`Encloses.wellFormed`).
-/

namespace ExprTyping

/-- What stands in a slot of `x` once `e` is in the parentheses `p`. -/
def enclosed (e p x : ExprId) : ExprId := if x = e then p else x

/-- The same for nodes of both kinds. -/
def NodeId.enclosed (e p : ExprId) (n : NodeId) : NodeId := if n = .expr e then .expr p else n

namespace Arena

variable {a b : Arena} {e p x : ExprId} {s : StmtId} {type : Option Ty}

/-- In `b`, the new expression `p` consists of parentheses around `e` and stands where `e` stands in
`a`. -/
structure Encloses (a b : Arena) (e p : ExprId) : Prop where
  contains_self : a.contains (.expr e)
  fresh : a.contains (.expr p) = false
  contains : ∀ n, b.contains n = (decide (n = .expr p) || a.contains n)
  expr_new : b.expr p = (a.expr e).map fun node => ⟨.parens e, node.parent⟩
  expr_old : ∀ x, x ≠ p → b.expr x = (a.expr x).map fun node =>
    ⟨node.kind.map (enclosed e p), if x = e then some (.expr p) else node.parent⟩
  stmt : ∀ s, b.stmt s = (a.stmt s).map fun node =>
    { node with kind := node.kind.map (enclosed e p) id }

/-- Parentheses around an expression of this type change nothing but the expression itself. -/
structure Enclosable (a : Arena) (e : ExprId) (type : Option Ty) : Prop where
  /-- A call finds a method only if the member access is not in parentheses. -/
  not_member : a.isCallee e = .ok true → ∀ node, a.expr e = .ok node → node.kind.isMember = false
  /-- Only the plain name of a type can be called. -/
  not_type : a.isCallee e = .ok true → ∀ node, a.expr e = .ok node →
    node.kind.isIdentifier = true → ∀ subject, type ≠ some (.metatype subject)
  /-- A chain of accesses does not reach into parentheses for an optional link. -/
  no_link : a.isReceiver e = .ok true → a.spineHasLink (a.exprs.size + 1) e = .ok false

/-- Parentheses around an expression that nothing is applied to change nothing. -/
theorem WellFormed.enclosable (wf : a.WellFormed) (he : a.isReceiver e = .ok false)
    (type : Option Ty) : a.Enclosable e type := by
  have hcallee : a.isCallee e ≠ .ok true := by
    intro h
    cases he.symm.trans (wf.isReceiver_of_isCallee h)
  have hreceiver : a.isReceiver e ≠ .ok true := by
    rw [he]
    simp
  exact ⟨(absurd · hcallee), (absurd · hcallee), (absurd · hreceiver)⟩

/-! ## What stands where -/

theorem enclosed_self (e p : ExprId) : enclosed e p e = p := if_pos rfl

theorem enclosed_of_ne (h : x ≠ e) : enclosed e p x = x := if_neg h

theorem enclosed_expr (e p x : ExprId) :
    (NodeId.expr x).enclosed e p = .expr (enclosed e p x) := by
  by_cases h : x = e <;> simp [NodeId.enclosed, enclosed, h]

theorem enclosed_stmt (e p : ExprId) (s : StmtId) : (NodeId.stmt s).enclosed e p = .stmt s :=
  if_neg (by simp)

namespace Encloses

theorem ne_of_contains (h : a.Encloses b e p) (hx : a.contains (.expr x)) : x ≠ p := by
  rintro rfl
  rw [h.fresh] at hx
  cases hx

theorem ne_new (h : a.Encloses b e p) {n : NodeId} (hn : a.contains n) : n ≠ .expr p := by
  rintro rfl
  rw [h.fresh] at hn
  cases hn

theorem contains_old (h : a.Encloses b e p) {n : NodeId} (hn : a.contains n) : b.contains n := by
  rw [h.contains, hn, Bool.or_true]

theorem enclosed_eq_iff (h : a.Encloses b e p) (hx : a.contains (.expr x)) (hne : x ≠ e)
    (y : ExprId) : enclosed e p y = x ↔ y = x := by
  by_cases hy : y = e
  · rw [hy, enclosed_self]
    exact ⟨fun heq => absurd heq.symm (h.ne_of_contains hx), fun heq => absurd heq.symm hne⟩
  · rw [enclosed_of_ne hy]

variable (h : a.Encloses b e p)
include h

theorem children_new : b.children (.expr p) = .ok [.expr e] := by
  obtain ⟨node, he⟩ := exists_expr h.contains_self
  rw [children_expr_eq, h.expr_new, he]
  rfl

theorem children_old {n : NodeId} (hn : n ≠ .expr p) :
    b.children n = (a.children n).map (·.map (NodeId.enclosed e p)) := by
  cases n with
  | expr x =>
    rw [children_expr_eq, children_expr_eq, h.expr_old x fun heq => hn (congrArg _ heq)]
    cases a.expr x <;> simp [Except.map, Function.comp_def, enclosed_expr]
  | stmt s =>
    rw [children_stmt_eq, children_stmt_eq, h.stmt]
    cases a.stmt s <;> simp [Except.map, Function.comp_def, enclosed_expr, enclosed_stmt]

theorem parent_new : b.parent (.expr p) = a.parent (.expr e) := by
  rw [parent_expr_eq, parent_expr_eq, h.expr_new]
  cases a.expr e <;> rfl

theorem parent_self : b.parent (.expr e) = .ok (some (.expr p)) := by
  rw [parent_expr_eq, h.expr_old e (h.ne_of_contains h.contains_self)]
  obtain ⟨node, he⟩ := exists_expr h.contains_self
  simp [he, Except.map]

theorem parent_old {n : NodeId} (hn : n ≠ .expr p) (hne : n ≠ .expr e) :
    b.parent n = a.parent n := by
  cases n with
  | expr x =>
    rw [parent_expr_eq, parent_expr_eq, h.expr_old x fun heq => hn (congrArg _ heq)]
    have hx : x ≠ e := fun heq => hne (congrArg _ heq)
    cases a.expr x with
    | error fault => rfl
    | ok node => simp [Except.map, hx]
  | stmt s =>
    rw [parent_stmt_eq, parent_stmt_eq, h.stmt]
    cases a.stmt s <;> rfl

theorem parent_iff {c n : NodeId} :
    b.Parent c n ↔ c = .expr p ∧ a.Parent (.expr e) n ∨ c = .expr e ∧ n = .expr p ∨
      c ≠ .expr e ∧ a.Parent c n := by
  by_cases hp : c = .expr p
  · subst hp
    have hpe : NodeId.expr p ≠ .expr e := (h.ne_new h.contains_self).symm
    have hold : ¬ a.Parent (.expr p) n := fun hparent => h.ne_new (contains_of_parent hparent) rfl
    simp [Parent, h.parent_new, hpe] at hold ⊢
    simp [hold]
  · by_cases hc : c = .expr e
    · subst hc
      simp [Parent, h.parent_self, hp, eq_comm]
    · simp [Parent, h.parent_old hp hc, hp, hc]

theorem child_iff {n c : NodeId} :
    b.Child n c ↔ n = .expr p ∧ c = .expr e ∨ ∃ d, a.Child n d ∧ c = d.enclosed e p := by
  by_cases hn : n = .expr p
  · subst hn
    have hold : ∀ d, ¬ a.Child (.expr p) d := by
      rintro d ⟨cs, hcs, -⟩
      exact h.ne_new (contains_of_children hcs) rfl
    have hnew : b.Child (.expr p) c ↔ c = .expr e := by simp [Child, h.children_new]
    simp only [hnew, hold, true_and, false_and, exists_false, or_false]
  · simp only [Child, h.children_old hn, hn, false_and, false_or]
    cases a.children n <;> simp [Except.map, eq_comm]

/-- A rank that falls on the way up, if the old one is made to leave room for the parentheses right
above the expression. -/
theorem exists_rank_parent (wf : a.WellFormed) :
    ∃ rank : NodeId → ℕ, ∀ c n, b.Parent c n → rank n < rank c := by
  obtain ⟨rank, -, hlt⟩ := wf.exists_rank_parent
  refine ⟨fun n => if n = .expr p then 2 * rank (.expr e) else 2 * rank n + 1, ?_⟩
  intro c n hn
  rcases (h.parent_iff).1 hn with ⟨rfl, hup⟩ | ⟨rfl, rfl⟩ | ⟨-, hup⟩
  · have hnp := h.ne_new (wf.contains_parent _ _ hup)
    have := hlt _ _ hup
    simp only [if_neg hnp, if_true]
    omega
  · simp only [if_neg (h.ne_new h.contains_self), if_true]
    omega
  · have hnp := h.ne_new (wf.contains_parent _ _ hup)
    have hcp := h.ne_new (contains_of_parent hup)
    have := hlt _ _ hup
    simp only [if_neg hnp, if_neg hcp]
    omega

theorem eq_of_enclosed_eq (wf : a.WellFormed) {n c d : NodeId} (hc : a.Child n c) (hd : a.Child n d)
    (heq : c.enclosed e p = d.enclosed e p) : c = d := by
  have hcp := h.ne_new (wf.contains_child _ _ hc)
  have hdp := h.ne_new (wf.contains_child _ _ hd)
  rw [NodeId.enclosed, NodeId.enclosed] at heq
  split_ifs at heq with hce hde hde
  · rw [hce, hde]
  · exact absurd heq.symm hdp
  · exact absurd heq hcp
  · exact heq

/-- Parentheses keep an arena well-formed. -/
theorem wellFormed (wf : a.WellFormed) : b.WellFormed where
  contains_child n c hc := by
    rcases (h.child_iff).1 hc with ⟨-, rfl⟩ | ⟨d, hd, rfl⟩
    · exact h.contains_old h.contains_self
    · rw [NodeId.enclosed]
      split_ifs
      · rw [h.contains, decide_eq_true rfl, Bool.true_or]
      · exact h.contains_old (wf.contains_child _ _ hd)
  contains_parent c n hn := by
    rcases (h.parent_iff).1 hn with ⟨-, hn⟩ | ⟨-, rfl⟩ | ⟨-, hn⟩
    · exact h.contains_old (wf.contains_parent _ _ hn)
    · rw [h.contains, decide_eq_true rfl, Bool.true_or]
    · exact h.contains_old (wf.contains_parent _ _ hn)
  nodup_children n cs hcs := by
    by_cases hn : n = .expr p
    · subst hn
      cases (h.children_new).symm.trans hcs
      exact List.nodup_singleton _
    · rw [h.children_old hn] at hcs
      cases hds : a.children n with
      | error fault => rw [hds] at hcs; cases hcs
      | ok ds =>
        rw [hds] at hcs
        cases hcs
        exact (wf.nodup_children n ds hds).map_on fun c hc d hd =>
          h.eq_of_enclosed_eq wf ⟨ds, hds, hc⟩ ⟨ds, hds, hd⟩
  child_iff_parent n c := by
    rw [h.child_iff, h.parent_iff]
    constructor
    · rintro (⟨rfl, rfl⟩ | ⟨d, hd, rfl⟩)
      · exact .inr (.inl ⟨rfl, rfl⟩)
      · have hd := (wf.child_iff_parent _ _).1 hd
        rw [NodeId.enclosed]
        split_ifs with hde
        · exact .inl ⟨rfl, hde ▸ hd⟩
        · exact .inr (.inr ⟨hde, hd⟩)
    · rintro (⟨rfl, hn⟩ | ⟨rfl, rfl⟩ | ⟨hc, hn⟩)
      · exact .inr ⟨.expr e, (wf.child_iff_parent _ _).2 hn, (if_pos rfl).symm⟩
      · exact .inl ⟨rfl, rfl⟩
      · exact .inr ⟨c, (wf.child_iff_parent _ _).2 hn, (if_neg hc).symm⟩
  acyclic n hn := by
    obtain ⟨rank, hlt⟩ := h.exists_rank_parent wf
    have hfall : ∀ m, Relation.TransGen b.Parent n m → rank m < rank n := by
      intro m hm
      induction hm with
      | single hm => exact hlt _ _ hm
      | tail _ hm ih => exact (hlt _ _ hm).trans ih
    exact (hfall n hn).false

/-! ## What is read -/

theorem expr_self {node : ExprNode} (hnode : a.expr e = .ok node) :
    b.expr e = .ok ⟨node.kind.map (enclosed e p), some (.expr p)⟩ := by
  rw [h.expr_old e (h.ne_of_contains (contains_of_expr hnode)), hnode]
  simp [Except.map]

theorem expr_of_ne {node : ExprNode} (hnode : a.expr x = .ok node) (hne : x ≠ e) :
    b.expr x = .ok ⟨node.kind.map (enclosed e p), node.parent⟩ := by
  rw [h.expr_old x (h.ne_of_contains (contains_of_expr hnode)), hnode]
  simp [Except.map, hne]

theorem exists_expr_old {node : ExprNode} (hnode : a.expr x = .ok node) :
    ∃ parent, b.expr x = .ok ⟨node.kind.map (enclosed e p), parent⟩ := by
  rw [h.expr_old x (h.ne_of_contains (contains_of_expr hnode)), hnode]
  exact ⟨_, rfl⟩

theorem expr_parens : ∃ parent, b.expr p = .ok ⟨.parens e, parent⟩ := by
  obtain ⟨node, he⟩ := exists_expr h.contains_self
  rw [h.expr_new, he]
  exact ⟨_, rfl⟩

theorem parentExpr_self : b.parentExpr e = .ok (some p) := by
  obtain ⟨node, hnode⟩ := exists_expr h.contains_self
  rw [parentExpr_of_expr (h.expr_self hnode)]

theorem parentExpr_of_ne (hx : a.contains (.expr x)) (hne : x ≠ e) :
    b.parentExpr x = a.parentExpr x := by
  obtain ⟨node, hnode⟩ := exists_expr hx
  rw [parentExpr_of_expr (h.expr_of_ne hnode hne), parentExpr_of_expr hnode]

/-- The parent of another expression has it in the same slot as before. -/
theorem stands_of_ne (wf : a.WellFormed) (hx : a.contains (.expr x)) (hne : x ≠ e)
    (slot? : Expr ExprId → Option ExprId)
    (hslot : ∀ k, slot? (k.map (enclosed e p)) = (slot? k).map (enclosed e p)) :
    (do match ← b.parentExpr x with
      | some y => return slot? (← b.expr y).kind == some x
      | none => return false : Except Fault Bool) =
    (do match ← a.parentExpr x with
      | some y => return slot? (← a.expr y).kind == some x
      | none => return false) := by
  obtain ⟨parent, hparent, hcontains⟩ := wf.exists_parentExpr hx
  rw [h.parentExpr_of_ne hx hne, hparent]
  cases parent with
  | none => rfl
  | some y =>
    obtain ⟨node, hy⟩ := exists_expr (hcontains y rfl)
    obtain ⟨parent, hy'⟩ := h.exists_expr_old hy
    simp only [bind, Except.bind, hy, hy', hslot]
    congr 1
    rw [Bool.eq_iff_iff, beq_iff_eq, beq_iff_eq, Option.map_eq_some_iff]
    simp [h.enclosed_eq_iff hx hne]

theorem isCallee_of_ne (wf : a.WellFormed) (hx : a.contains (.expr x)) (hne : x ≠ e) :
    b.isCallee x = a.isCallee x :=
  h.stands_of_ne wf hx hne Expr.callee? fun k => k.callee?_map _

theorem isReceiver_of_ne (wf : a.WellFormed) (hx : a.contains (.expr x)) (hne : x ≠ e) :
    b.isReceiver x = a.isReceiver x :=
  h.stands_of_ne wf hx hne Expr.receiver? fun k => k.receiver?_map _

theorem isCallee_self : b.isCallee e = .ok false := by
  obtain ⟨parent, hp⟩ := h.expr_parens
  rw [isCallee, h.parentExpr_self]
  simp [bind, Except.bind, hp, Expr.callee?]
  rfl

theorem isReceiver_self : b.isReceiver e = .ok false := by
  obtain ⟨parent, hp⟩ := h.expr_parens
  rw [isReceiver, h.parentExpr_self]
  simp [bind, Except.bind, hp, Expr.receiver?]
  rfl

/-- The receivers below an expression have the same links as before, unless the parentheses hide
one. -/
theorem spineHasLink_old (wf : a.WellFormed) (henclosable : a.Enclosable e type)
    {rank : ExprId → ℕ} (hle : ∀ x, rank x ≤ a.exprs.size)
    (hrank : ∀ x y, a.Child (.expr x) (.expr y) → rank y < rank x) {bound bound' : ℕ}
    (hbound : rank x < bound) (hbound' : rank x < bound') (hx : a.contains (.expr x)) :
    b.spineHasLink bound x = a.spineHasLink bound' x := by
  induction bound generalizing bound' x with
  | zero => omega
  | succ bound ih =>
    obtain ⟨bound', rfl⟩ : ∃ n, bound' = n + 1 := ⟨bound' - 1, by omega⟩
    obtain ⟨node, hnode⟩ := exists_expr hx
    obtain ⟨parent, hnode'⟩ := h.exists_expr_old hnode
    have hreceiver : ∀ y, node.kind.receiver? = some y →
        b.spineHasLink bound (enclosed e p y) = a.spineHasLink bound' y := by
      intro y hy
      have hchild : a.Child (.expr x) (.expr y) :=
        (child_expr_iff hnode).2 ⟨y, Expr.mem_slots_of_receiver? hy, rfl⟩
      have hlt := hrank x y hchild
      by_cases hye : y = e
      · subst hye
        have hisReceiver := wf.isReceiver_of_receiver? hnode hy
        obtain ⟨parent, hp⟩ := h.expr_parens
        obtain ⟨n, rfl⟩ : ∃ n, bound = n + 1 := ⟨bound - 1, by omega⟩
        rw [enclosed_self, spineHasLink_succ hp, spineHasLink_eq hrank (by omega)
          (Nat.lt_succ_of_le (hle y)), henclosable.no_link hisReceiver]
        rfl
      · rw [enclosed_of_ne hye]
        exact ih (by omega) (by omega) (wf.contains_child _ _ hchild)
    rw [spineHasLink_succ hnode, spineHasLink_succ hnode']
    cases hk : node.kind with
    | member y | subscript y | call y =>
      rw [hk] at hreceiver
      exact hreceiver y rfl
    | _ => rfl

theorem size_le : a.exprs.size ≤ b.exprs.size := by
  by_contra hlt
  have hb := h.contains_old (n := .expr ⟨b.exprs.size⟩) (by simp [Arena.contains]; omega)
  simp [Arena.contains] at hb

theorem closesChain_old (wf : a.WellFormed) (henclosable : a.Enclosable e type)
    (hx : a.contains (.expr x)) : b.closesChain x = a.closesChain x := by
  obtain ⟨rank, hle, hrank⟩ := wf.exists_exprRank
  have hspine : b.spineHasLink (b.exprs.size + 1) x = a.spineHasLink (a.exprs.size + 1) x :=
    h.spineHasLink_old wf henclosable hle hrank (by have := h.size_le; have := hle x; omega)
      (Nat.lt_succ_of_le (hle x)) hx
  by_cases hxe : x = e
  · subst hxe
    obtain ⟨r, hr⟩ := wf.exists_isReceiver h.contains_self
    rw [closesChain, closesChain, h.isReceiver_self, hr]
    cases r with
    | false => exact hspine
    | true => exact hspine.trans (henclosable.no_link hr)
  · rw [closesChain, closesChain, h.isReceiver_of_ne wf hx hxe, hspine]

theorem mark_of_ne (wf : a.WellFormed) (henclosable : a.Enclosable e type)
    (hx : a.contains (.expr x)) (hne : x ≠ e) : b.mark x = a.mark x := by
  rw [mark, mark, h.isCallee_of_ne wf hx hne, h.closesChain_old wf henclosable hx]

theorem mark_self (wf : a.WellFormed) (henclosable : a.Enclosable e type) :
    b.mark e = ⟨false, (a.mark e).closesChain⟩ := by
  rw [mark, mark, h.isCallee_self, h.closesChain_old wf henclosable h.contains_self]
  rfl

theorem term_old (wf : a.WellFormed) {node : ExprNode}
    (hnode : a.expr x = .ok node) :
    b.term x = ⟨x, b.mark x, node.kind.map fun y => b.term (enclosed e p y)⟩ := by
  obtain ⟨parent, hnode⟩ := h.exists_expr_old hnode
  rw [(h.wellFormed wf).term_eq hnode, Expr.map_map]

theorem program_old (wf : a.WellFormed) {node : StmtNode}
    (hnode : a.stmt s = .ok node) :
    b.program s = ⟨s, node.kind.map (fun y => b.term (enclosed e p y)) b.program⟩ := by
  have hs := h.stmt s
  rw [hnode] at hs
  rw [(h.wellFormed wf).program_eq hs, Stmt.map_map]
  rfl

theorem owns_eq (s : StmtId) : b.owns s = a.owns s := by
  rw [owns, owns, h.stmt]
  cases a.stmt s <;> rfl

/-- Around a statement nothing has changed. -/
theorem ownersAbove_stmt (wf : a.WellFormed) (s : StmtId) :
    b.ownersAbove (.stmt s) = a.ownersAbove (.stmt s) := by
  obtain ⟨rank, -, hlt⟩ := wf.exists_rank_parent
  induction hr : rank (.stmt s) using Nat.strong_induction_on generalizing s with
  | _ r ih =>
    have hparent : ∀ n, b.Parent (.stmt s) n ↔ a.Parent (.stmt s) n := fun n => by
      rw [Parent, Parent, h.parent_old (NodeId.noConfusion ·) (NodeId.noConfusion ·)]
    by_cases hup : ∃ n, a.Parent (.stmt s) n
    · obtain ⟨n, hn⟩ := hup
      obtain ⟨q, rfl⟩ := Parent.of_stmt hn
      rw [wf.ownersAbove_of_parent hn, (h.wellFormed wf).ownersAbove_of_parent ((hparent _).2 hn),
        owners, owners, ih _ (hr ▸ hlt _ _ hn) q rfl, owner?, owner?, h.owns_eq]
    · have hnone : ∀ n, ¬ a.Parent (.stmt s) n := fun n hn => hup ⟨n, hn⟩
      rw [ownersAbove_of_no_parent hnone,
        ownersAbove_of_no_parent fun n hn => hnone n ((hparent n).1 hn)]

/-- What was below a node still is. -/
theorem below_old {n m : NodeId} (hm : a.Below n m) : b.Below n m := by
  induction hm with
  | refl => exact .refl n
  | @tail m c _ hc ih =>
    have hchild : b.Child m (c.enclosed e p) := (h.child_iff).2 (.inr ⟨c, hc, rfl⟩)
    rw [NodeId.enclosed] at hchild
    split_ifs at hchild with hce
    · have hself : b.Child (.expr p) (.expr e) := (h.child_iff).2 (.inl ⟨rfl, rfl⟩)
      exact hce ▸ (ih.tail hchild).tail hself
    · exact ih.tail hchild

/-- A statement stands below the same nodes as before. -/
theorem below_stmt (wf : a.WellFormed) {n : NodeId} (hs : b.Below n (.stmt s)) :
    a.Below n (.stmt s) := by
  suffices ∀ m, Relation.ReflTransGen b.Parent m n → ∀ s, m = .stmt s →
      Relation.ReflTransGen a.Parent m n from
    wf.below_iff.2 (this _ ((h.wellFormed wf).below_iff.1 hs) s rfl)
  intro m hm
  induction hm using Relation.ReflTransGen.head_induction_on with
  | refl => exact fun _ _ => .refl
  | head hparent _ ih =>
    rintro s rfl
    have hold := h.parent_old (n := .stmt s) (NodeId.noConfusion ·) (NodeId.noConfusion ·)
    have hparent : a.Parent (.stmt s) _ := hold.symm.trans hparent
    obtain ⟨q, rfl⟩ := Parent.of_stmt hparent
    exact .head hparent (ih q rfl)

/-- What the expression was below is above the parentheses. -/
theorem below_new (wf : a.WellFormed) {n : NodeId}
    (hn : a.Below n (.expr e)) (hne : n ≠ .expr e) : b.Below n (.expr p) := by
  have wf' := h.wellFormed wf
  rcases Relation.ReflTransGen.cases_head (wf'.below_iff.1 (h.below_old hn)) with heq |
    ⟨q, hq, hup⟩
  · exact absurd heq.symm hne
  · obtain rfl : q = .expr p := hq.unique (h.parent_self)
    exact wf'.below_iff.2 hup

/-- Above the parentheses is what the expression was an operand of, and nothing else if that stands
in a statement. -/
theorem mem_above_iff (wf : a.WellFormed) {c : ExprId} (hq : a.Parent (.expr e) (.expr c))
    (hc : a.Parent (.expr c) (.stmt s)) (x : ExprId) :
    x ∈ [c] ↔ x ≠ p ∧ b.Below (.expr x) (.expr p) := by
  have wf' := h.wellFormed wf
  have hcontains := wf.contains_parent _ _ hq
  have hce : NodeId.expr c ≠ .expr e := by
    intro heq
    rw [heq] at hc
    cases hq.unique hc
  have hp : b.Parent (.expr p) (.expr c) := h.parent_new.trans hq
  have hc' : b.Parent (.expr c) (.stmt s) := (h.parent_old (h.ne_new hcontains) hce).trans hc
  rw [List.mem_singleton]
  constructor
  · rintro rfl
    exact ⟨h.ne_of_contains hcontains, .of_child ((wf'.child_iff_parent _ _).2 hp) (.refl _)⟩
  · rintro ⟨hne, hx⟩
    rcases Relation.ReflTransGen.cases_head (wf'.below_iff.1 hx) with heq | ⟨q, hup, hx⟩
    · exact absurd (NodeId.expr.inj heq).symm hne
    cases hup.unique hp
    rcases Relation.ReflTransGen.cases_head hx with heq | ⟨q, hup, hx⟩
    · exact (NodeId.expr.inj heq).symm
    cases hup.unique hc'
    obtain ⟨y, hy⟩ := (wf'.below_iff.2 hx).of_expr
    cases hy

end Encloses
end Arena
end ExprTyping
