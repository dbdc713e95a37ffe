import ExprTyping.Proofs.Edit.Sharing

/-!
# Builders that touch nothing else

A constructor writes on the nodes that it adopts and on no other one (`Tree.sameAt_of_addExpr`,
`Tree.sameAt_of_addStmt`). So a builder that is called to wrap an expression, and makes nodes of
this expression and of other new nodes only, leaves all other nodes alone
(`Construction.spares_builder`). It may put the expression below a node that it makes, but not below
one that was there.

`Tree.Spared` is what such a builder keeps: the induction is on the constructor calls, and a call
keeps it (`Tree.Spared.adds`).
-/

namespace ExprTyping

namespace Arena

variable {a b : Arena} {p : NodeId} {e : ExprId}

/-! ## What a constructor leaves alone -/

/-- Adopting an expression changes no other node. -/
theorem adoptExpr_frame (h : a.adoptExpr p e = .ok b) :
    b.stmts = a.stmts ∧ ∀ x, x ≠ e → b.expr x = a.expr x := by
  obtain ⟨node, -, hset⟩ := bind_eq_ok_iff.1 h
  cases hset
  refine ⟨rfl, ?_⟩
  intro x hx
  rw [expr_setExprParent]
  simp only [if_neg (Ne.symm hx)]
  cases a.expr x <;> rfl

/-- Adopting a statement changes no other node. -/
theorem adoptStmt_frame {parent s : StmtId} (h : a.adoptStmt parent s = .ok b) :
    b.exprs = a.exprs ∧ ∀ x, x ≠ s → b.stmt x = a.stmt x := by
  obtain ⟨node, -, hset⟩ := bind_eq_ok_iff.1 h
  cases hset
  refine ⟨rfl, ?_⟩
  intro x hx
  rw [setStmtParent, stmt_modify]
  simp only [if_neg (Ne.symm hx)]
  cases a.stmt x <;> rfl

/-- Expressions that are not adopted, and all statements, stay as they are. -/
theorem foldlM_adoptExpr_frame {xs : List ExprId} (h : xs.foldlM (adoptExpr p) a = .ok b) :
    b.stmts = a.stmts ∧ ∀ e ∉ xs, b.expr e = a.expr e := by
  constructor
  · exact foldlM_invariant (I := fun c => c.stmts = a.stmts)
      (fun _ _ _ _ hs hstep => (adoptExpr_frame hstep).1.trans hs) rfl h
  · intro e he
    refine foldlM_invariant (I := fun c => c.expr e = a.expr e)
      (fun _ _ x hx hs hstep => ((adoptExpr_frame hstep).2 e ?_).trans hs) rfl h
    rintro rfl
    exact he hx

/-- Statements that are not adopted, and all expressions, stay as they are. -/
theorem foldlM_adoptStmt_frame {parent : StmtId} {xs : List StmtId}
    (h : xs.foldlM (adoptStmt parent) a = .ok b) :
    b.exprs = a.exprs ∧ ∀ s ∉ xs, b.stmt s = a.stmt s := by
  constructor
  · exact foldlM_invariant (I := fun c => c.exprs = a.exprs)
      (fun _ _ _ _ hs hstep => (adoptStmt_frame hstep).1.trans hs) rfl h
  · intro s hs
    refine foldlM_invariant (I := fun c => c.stmt s = a.stmt s)
      (fun _ _ x hx hkept hstep => ((adoptStmt_frame hstep).2 s ?_).trans hkept) rfl h
    rintro rfl
    exact hs hx

theorem addExpr_frame {kind : Expr ExprId} (h : a.addExpr kind = .ok (b, e)) :
    b.stmts = a.stmts ∧
      ∀ x, a.contains (.expr x) → x ∉ kind.slots → b.expr x = a.expr x := by
  obtain ⟨c, hc, hresult⟩ := bind_eq_ok_iff.1 h
  cases hresult
  obtain ⟨hstmts, hexprs⟩ := foldlM_adoptExpr_frame hc
  refine ⟨hstmts, ?_⟩
  intro x hx hslot
  rw [hexprs x hslot, expr_push, if_neg]
  rintro rfl
  simp [contains] at hx

theorem addStmt_frame {kind : Stmt ExprId StmtId} {s : StmtId}
    (h : a.addStmt kind = .ok (b, s)) :
    (∀ x ∉ kind.exprSlots, b.expr x = a.expr x) ∧
      ∀ x, a.contains (.stmt x) → x ∉ kind.stmtSlots → b.stmt x = a.stmt x := by
  obtain ⟨c, hc, h⟩ := bind_eq_ok_iff.1 h
  obtain ⟨d, hd, hresult⟩ := bind_eq_ok_iff.1 h
  cases hresult
  obtain ⟨hstmts, hexprs⟩ := foldlM_adoptExpr_frame hc
  obtain ⟨hexprs', hstmts'⟩ := foldlM_adoptStmt_frame hd
  constructor
  · intro x hx
    rw [expr, hexprs', ← expr, hexprs x hx]
    rfl
  · intro x hx hslot
    have hne : x.index ≠ a.stmts.size := by
      have hlt : x.index < a.stmts.size := by simpa [contains] using hx
      exact hlt.ne
    rw [hstmts' x hslot, stmt, hstmts, stmt, Array.getElem?_push, if_neg hne]

theorem parentOf?_setExprParent_none (a : Arena) (e : ExprId) :
    (a.setExprParent e none).parentOf? e = none := by
  rw [parentOf?, setExprParent, Array.getElem?_modify, if_pos rfl]
  cases a.exprs[e.index]? <;> rfl

end Arena

namespace Tree

variable {t t' : Tree} {old : ExprId}

/-! ## Nodes that stay the same -/

/-- The trees have the same node at the handle, of the same kind and so with the same slots, and
with the same parent, notes and scope. -/
def SameAt (t t' : Tree) : NodeId → Prop
  | .expr e => t'.arena.expr e = t.arena.expr e ∧ t'.notes.expr e = t.notes.expr e
  | .stmt s => t'.arena.stmt s = t.arena.stmt s ∧ t'.scope? s = t.scope? s

/-- All nodes of `t` are as they were. -/
def Keeps (t t' : Tree) : Prop := ∀ n, t.contains n → t.SameAt t' n

/-- All nodes of `t`, except for one expression, are as they were. -/
def KeepsBut (t t' : Tree) (e : ExprId) : Prop := ∀ n, t.contains n → n ≠ .expr e → t.SameAt t' n

theorem SameAt.refl (t : Tree) (n : NodeId) : t.SameAt t n := by
  cases n <;> exact ⟨rfl, rfl⟩

theorem SameAt.trans {t'' : Tree} {n : NodeId} (h : t.SameAt t' n) (h' : t'.SameAt t'' n) :
    t.SameAt t'' n := by
  cases n <;> exact ⟨h'.1.trans h.1, h'.2.trans h.2⟩

theorem SameAt.parent_eq {n : NodeId} (h : t.SameAt t' n) :
    t'.arena.parent n = t.arena.parent n := by
  cases n with
  | expr e => rw [Arena.parent, Arena.parent, h.1]
  | stmt s => rw [Arena.parent, Arena.parent, h.1]

theorem SameAt.children_eq {n : NodeId} (h : t.SameAt t' n) :
    t'.arena.children n = t.arena.children n := by
  cases n with
  | expr e => rw [Arena.children, Arena.children, h.1]
  | stmt s => rw [Arena.children, Arena.children, h.1]

theorem Keeps.but (h : t.Keeps t') (e : ExprId) : t.KeepsBut t' e := fun n hn _ => h n hn

theorem keeps_refl (t : Tree) : t.Keeps t := fun n _ => .refl t n

/-- An expression that loses its parent is the only node that changes. -/
theorem keepsBut_free (t : Tree) (e : ExprId) : t.KeepsBut (t.free e) e := by
  intro n hn hne
  cases n with
  | stmt s => exact ⟨rfl, rfl⟩
  | expr x =>
    refine ⟨?_, rfl⟩
    rw [free, Arena.expr_setExprParent]
    simp only [if_neg fun h : e = x => hne (congrArg NodeId.expr h.symm)]
    cases t.arena.expr x <;> rfl

/-- A new expression changes no node but those that it adopts. -/
theorem sameAt_of_addExpr {kind : Expr ExprId} {e : ExprId} (h : t.addExpr kind = .ok (t', e))
    {n : NodeId} (hn : t.contains n) (hslots : ∀ x ∈ kind.slots, n ≠ .expr x) :
    t.SameAt t' n := by
  obtain ⟨⟨b, e'⟩, hb, hresult⟩ := bind_eq_ok_iff.1 h
  cases hresult
  obtain ⟨hstmts, hexprs⟩ := Arena.addExpr_frame hb
  cases n with
  | expr x => exact ⟨hexprs x hn fun hx => hslots x hx rfl, rfl⟩
  | stmt s =>
    have hs : b.stmt s = t.arena.stmt s := by rw [Arena.stmt, hstmts, ← Arena.stmt]
    exact ⟨hs, by rw [scope?, scope?, hs]⟩

/-- A new statement changes no node but those that it adopts. -/
theorem sameAt_of_addStmt {kind : Stmt ExprId StmtId} {s : StmtId}
    (h : t.addStmt kind = .ok (t', s)) {n : NodeId} (hn : t.contains n)
    (hexprs : ∀ x ∈ kind.exprSlots, n ≠ .expr x) (hstmts : ∀ x ∈ kind.stmtSlots, n ≠ .stmt x) :
    t.SameAt t' n := by
  obtain ⟨⟨b, s'⟩, hb, hresult⟩ := bind_eq_ok_iff.1 h
  cases hresult
  obtain ⟨hexprs', hstmts'⟩ := Arena.addStmt_frame hb
  cases n with
  | expr x => exact ⟨hexprs' x fun hx => hexprs x hx rfl, rfl⟩
  | stmt x =>
    have hx := hstmts' x hn fun hx => hstmts x hx rfl
    exact ⟨hx, by rw [scope?, scope?, hx]⟩

/-! ## Builders that touch nothing else -/

/-- The tree has all nodes of `t`. Apart from `old` they are as they were, and `old` is not below any
of them. -/
structure Spared (t : Tree) (old : ExprId) (t' : Tree) : Prop where
  contains : ∀ n, t.contains n → t'.contains n
  keeps : t.KeepsBut t' old
  fresh : ∀ p, t'.arena.Parent (.expr old) p → t.contains p = false

namespace Spared

theorem free (t : Tree) (old : ExprId) : t.Spared old (t.free old) where
  contains := (Extends.free t old).contains
  keeps := t.keepsBut_free old
  fresh p hp := by
    have hnone := t.arena.parentOf?_setExprParent_none old
    cases hnone.symm.trans (Arena.parentOf?_eq_some.2 hp)

/-- A new node over `old` and over nodes that `t` does not have. -/
theorem adds (h : t.Spared old t') {t'' : Tree} {n : NodeId} {cs : List NodeId}
    (hadds : t'.arena.Adds t''.arena n cs)
    (hcs : ∀ c ∈ cs, c = .expr old ∨ t.contains c = false)
    (hsame : ∀ m, t'.contains m → m ∉ cs → t'.SameAt t'' m) : t.Spared old t'' where
  contains m hm := by
    rw [Tree.contains, hadds.contains, show t'.arena.contains m = true from h.contains m hm,
      Bool.or_true]
  keeps m hm hne := by
    refine (h.keeps m hm hne).trans (hsame m (h.contains m hm) ?_)
    intro hmem
    rcases hcs m hmem with rfl | hnew
    · exact hne rfl
    · rw [hm] at hnew
      cases hnew
  fresh p hp := by
    by_cases hmem : .expr old ∈ cs
    · obtain rfl := hp.unique (hadds.parent_of_mem _ hmem)
      rw [Bool.eq_false_iff]
      intro hcontains
      cases hadds.fresh.symm.trans (h.contains p hcontains)
    · have hne : .expr old ≠ n := by
        rintro rfl
        exact Arena.Detached.not_parent hadds.parent_new p hp
      rw [Arena.Parent, hadds.parent_of_not_mem _ hne hmem] at hp
      exact h.fresh p hp

end Spared

/-- Called to wrap `old`, the builder touches no other node that is there. If it puts `old` below a
node, then below one that it has made. -/
def Spares (t : Tree) (old : ExprId) (build : Builder) : Prop :=
  ∀ built new, build (t.free old) old = .ok (built, new) → t.Spared old built

end Tree

namespace Construction

/-- Every node is made of `old` and of nodes that `t` does not have. -/
def Spares (t : Tree) (old : ExprId) : Construction → Prop
  | done _ => True
  | expr kind next => (∀ x ∈ kind.slots, x = old ∨ t.contains (.expr x) = false) ∧
      ∀ e, (next e).Spares t old
  | stmt kind next => (∀ x ∈ kind.exprSlots, x = old ∨ t.contains (.expr x) = false) ∧
      (∀ x ∈ kind.stmtSlots, t.contains (.stmt x) = false) ∧ ∀ s, (next s).Spares t old

theorem spared_of_run (c : Construction) {t cur built : Tree} {old new : ExprId}
    (within : c.Within cur) (spares : c.Spares t old) (h : t.Spared old cur)
    (hrun : c.run cur = .ok (built, new)) : t.Spared old built := by
  induction c generalizing cur with
  | done given =>
    cases hrun
    exact h
  | expr kind next ih =>
    obtain ⟨⟨cur', e⟩, hadd, hrest⟩ := bind_eq_ok_iff.1 hrun
    obtain ⟨cur'', hadd', hadds⟩ := Tree.exists_addExpr within.1
    cases hadd.symm.trans hadd'
    refine ih _ (within.2 _ _ hadd) (spares.2 _) (h.adds hadds (fun c hc => ?_)
      fun m hm hmem => Tree.sameAt_of_addExpr hadd hm fun x hx => ?_) hrest
    · obtain ⟨x, hx, rfl⟩ := List.mem_map.1 hc
      exact (spares.1 x hx).imp_left (congrArg NodeId.expr)
    · rintro rfl
      exact hmem (List.mem_map_of_mem hx)
  | stmt kind next ih =>
    obtain ⟨⟨cur', s⟩, hadd, hrest⟩ := bind_eq_ok_iff.1 hrun
    obtain ⟨cur'', hadd', hadds⟩ := Tree.exists_addStmt within.1 within.2.1
    cases hadd.symm.trans hadd'
    refine ih _ (within.2.2 _ _ hadd) (spares.2.2 _) (h.adds hadds (fun c hc => ?_)
      fun m hm hmem => Tree.sameAt_of_addStmt hadd hm (fun x hx => ?_) fun x hx => ?_) hrest
    · rcases List.mem_append.1 hc with hc | hc
      · obtain ⟨x, hx, rfl⟩ := List.mem_map.1 hc
        exact (spares.1 x hx).imp_left (congrArg NodeId.expr)
      · obtain ⟨x, hx, rfl⟩ := List.mem_map.1 hc
        exact .inr (spares.2.1 x hx)
    · rintro rfl
      exact hmem (List.mem_append_left _ (List.mem_map_of_mem hx))
    · rintro rfl
      exact hmem (List.mem_append_right _ (List.mem_map_of_mem hx))

/-- A builder that makes nodes of `old` and of other new nodes only touches nothing else. -/
theorem spares_builder {t : Tree} {old : ExprId} {build : ExprId → Construction}
    (within : (build old).Within (t.free old)) (spares : (build old).Spares t old) :
    t.Spares old (builder build) := by
  intro built new hbuild
  exact (build old).spared_of_run within spares (.free t old) hbuild

end Construction
end ExprTyping
