import ExprTyping.Proofs.Arena.WellFormed
import ExprTyping.Proofs.Syntax.Replacement
import ExprTyping.Tree.Edit

/-!
# What changes in an arena

An arena is seen through the children and the parent of each node. Every operation on it is
described by what it does to these two.

* `Arena.Adopts`: a node becomes the parent of others.
* `Arena.Adds`: a new node appears, without a parent, and adopts its children
  (`exists_addExpr`, `exists_addStmt`).
* `Arena.Rewires`: an expression takes the place of another one below a node (`exists_rewire`).
-/

namespace ExprTyping.Arena

variable {a b b' : Arena} {n p c : NodeId} {cs : List NodeId} {e x old new : ExprId} {s : StmtId}

/-- The node is there and has no parent. -/
def Detached (a : Arena) (n : NodeId) : Prop := a.parent n = .ok none

instance : Decidable (a.Detached n) := inferInstanceAs (Decidable (a.parent n = .ok none))

theorem Detached.contains (h : a.Detached n) : a.contains n := contains_of_parent h

theorem Detached.not_parent (h : a.Detached n) (p : NodeId) : ¬ a.Parent n p := by
  intro hp
  cases h.symm.trans hp

/-! ## Overwriting one node -/

theorem parent_expr_eq (a : Arena) (e : ExprId) :
    a.parent (.expr e) = (a.expr e).map (·.parent) := by
  rw [parent]
  cases a.expr e <;> rfl

theorem parent_stmt_eq (a : Arena) (s : StmtId) :
    a.parent (.stmt s) = (a.stmt s).map (·.parent.map .stmt) := by
  rw [parent]
  cases a.stmt s <;> rfl

/-- The parent of a statement is a statement. -/
theorem Parent.of_stmt {s : StmtId} {n : NodeId} (h : a.Parent (.stmt s) n) :
    ∃ q, n = .stmt q := by
  rw [Parent, parent_stmt_eq] at h
  cases hs : a.stmt s with
  | error fault => rw [hs] at h; cases h
  | ok node =>
    rw [hs] at h
    obtain ⟨q, -, hq⟩ := Option.map_eq_some_iff.1 (Except.ok.inj h)
    exact ⟨q, hq.symm⟩

theorem children_expr_eq (a : Arena) (e : ExprId) :
    a.children (.expr e) = (a.expr e).map (·.kind.slots.map .expr) := by
  rw [children]
  cases a.expr e <;> rfl

theorem children_stmt_eq (a : Arena) (s : StmtId) :
    a.children (.stmt s) = (a.stmt s).map fun node =>
      node.kind.exprSlots.map .expr ++ node.kind.stmtSlots.map .stmt := by
  rw [children]
  cases a.stmt s <;> rfl

theorem expr_modify (a : Arena) (e x : ExprId) (f : ExprNode → ExprNode) :
    expr { a with exprs := a.exprs.modify e.index f } x =
      (a.expr x).map fun node => if e = x then f node else node := by
  rw [expr, expr, Array.getElem?_modify]
  by_cases h : e = x
  · subst h
    cases a.exprs[e.index]? <;> simp [Except.map]
  · rw [if_neg fun hindex => h (ExprId.ext hindex)]
    cases a.exprs[x.index]? <;> simp [Except.map, h]

theorem stmt_modify (a : Arena) (s x : StmtId) (f : StmtNode → StmtNode) :
    stmt { a with stmts := a.stmts.modify s.index f } x =
      (a.stmt x).map fun node => if s = x then f node else node := by
  rw [stmt, stmt, Array.getElem?_modify]
  by_cases h : s = x
  · subst h
    cases a.stmts[s.index]? <;> simp [Except.map]
  · rw [if_neg fun hindex => h (StmtId.ext hindex)]
    cases a.stmts[x.index]? <;> simp [Except.map, h]

section

variable {β : Type} {exprChange : ExprNode → ExprNode} {stmtChange : StmtNode → StmtNode} {v : β}

/-- What a change of one expression keeps. -/
theorem map_expr_modify_of_eq (a : Arena) (e x : ExprId) {read : ExprNode → β}
    (h : ∀ node, read (exprChange node) = read node) :
    (expr { a with exprs := a.exprs.modify e.index exprChange } x).map read =
      (a.expr x).map read := by
  rw [expr_modify]
  cases a.expr x with
  | error fault => rfl
  | ok node => by_cases hx : e = x <;> simp [Except.map, hx, h]

/-- What a change of one expression sets. -/
theorem map_expr_modify (he : a.contains (.expr e)) (x : ExprId) {read : ExprNode → β}
    (h : ∀ node, read (exprChange node) = v) :
    (expr { a with exprs := a.exprs.modify e.index exprChange } x).map read =
      if x = e then .ok v else (a.expr x).map read := by
  rw [expr_modify]
  by_cases hx : e = x
  · subst hx
    obtain ⟨node, hnode⟩ := exists_expr he
    simp [hnode, Except.map, h]
  · cases a.expr x <;> simp [Except.map, hx, Ne.symm hx]

/-- What a change of one statement keeps. -/
theorem map_stmt_modify_of_eq (a : Arena) (s x : StmtId) {read : StmtNode → β}
    (h : ∀ node, read (stmtChange node) = read node) :
    (stmt { a with stmts := a.stmts.modify s.index stmtChange } x).map read =
      (a.stmt x).map read := by
  rw [stmt_modify]
  cases a.stmt x with
  | error fault => rfl
  | ok node => by_cases hx : s = x <;> simp [Except.map, hx, h]

/-- What a change of one statement sets. -/
theorem map_stmt_modify (hs : a.contains (.stmt s)) (x : StmtId) {read : StmtNode → β}
    (h : ∀ node, read (stmtChange node) = v) :
    (stmt { a with stmts := a.stmts.modify s.index stmtChange } x).map read =
      if x = s then .ok v else (a.stmt x).map read := by
  rw [stmt_modify]
  by_cases hx : s = x
  · subst hx
    obtain ⟨node, hnode⟩ := exists_stmt hs
    simp [hnode, Except.map, h]
  · cases a.stmt x <;> simp [Except.map, hx, Ne.symm hx]

end

theorem expr_setExprParent (a : Arena) (e x : ExprId) (parent : Option NodeId) :
    (a.setExprParent e parent).expr x =
      (a.expr x).map fun node => if e = x then { node with parent } else node :=
  a.expr_modify e x _

@[simp] theorem children_setExprParent (a : Arena) (e : ExprId) (parent : Option NodeId)
    (n : NodeId) : (a.setExprParent e parent).children n = a.children n := by
  cases n with
  | stmt s => rfl
  | expr x =>
    rw [children_expr_eq, children_expr_eq]
    exact a.map_expr_modify_of_eq e x fun _ => rfl

theorem parent_setExprParent (a : Arena) (h : a.contains (.expr e)) (parent : Option NodeId)
    (n : NodeId) :
    (a.setExprParent e parent).parent n = if n = .expr e then .ok parent else a.parent n := by
  cases n with
  | stmt s => rfl
  | expr x =>
    simp only [parent_expr_eq, NodeId.expr.injEq]
    exact map_expr_modify h x fun _ => rfl

@[simp] theorem contains_setExprParent (a : Arena) (e : ExprId) (parent : Option NodeId)
    (n : NodeId) : (a.setExprParent e parent).contains n = a.contains n := by
  cases n with
  | expr x => simp [contains, setExprParent]
  | stmt s => rfl

@[simp] theorem children_setStmtParent (a : Arena) (s : StmtId) (parent : Option StmtId)
    (n : NodeId) : (a.setStmtParent s parent).children n = a.children n := by
  cases n with
  | expr e => rfl
  | stmt x =>
    rw [children_stmt_eq, children_stmt_eq]
    exact a.map_stmt_modify_of_eq s x fun _ => rfl

theorem parent_setStmtParent (a : Arena) (h : a.contains (.stmt s)) (parent : Option StmtId)
    (n : NodeId) : (a.setStmtParent s parent).parent n =
      if n = .stmt s then .ok (parent.map .stmt) else a.parent n := by
  cases n with
  | expr e => rfl
  | stmt x =>
    simp only [parent_stmt_eq, NodeId.stmt.injEq]
    exact map_stmt_modify h x fun _ => rfl

@[simp] theorem contains_setStmtParent (a : Arena) (s : StmtId) (parent : Option StmtId)
    (n : NodeId) : (a.setStmtParent s parent).contains n = a.contains n := by
  cases n with
  | expr e => rfl
  | stmt x => simp [contains, setStmtParent]

theorem expr_setExprKind (a : Arena) (e x : ExprId) (kind : Expr ExprId) :
    (a.setExprKind e kind).expr x =
      (a.expr x).map fun node => if e = x then { node with kind } else node :=
  a.expr_modify e x _

@[simp] theorem parent_setExprKind (a : Arena) (e : ExprId) (kind : Expr ExprId) (n : NodeId) :
    (a.setExprKind e kind).parent n = a.parent n := by
  cases n with
  | stmt s => rfl
  | expr x =>
    rw [parent_expr_eq, parent_expr_eq]
    exact a.map_expr_modify_of_eq e x fun _ => rfl

theorem children_setExprKind (a : Arena) (h : a.contains (.expr e)) (kind : Expr ExprId)
    (n : NodeId) : (a.setExprKind e kind).children n =
      if n = .expr e then .ok (kind.slots.map .expr) else a.children n := by
  cases n with
  | stmt s => rfl
  | expr x =>
    simp only [children_expr_eq, NodeId.expr.injEq]
    exact map_expr_modify h x fun _ => rfl

@[simp] theorem contains_setExprKind (a : Arena) (e : ExprId) (kind : Expr ExprId) (n : NodeId) :
    (a.setExprKind e kind).contains n = a.contains n := by
  cases n with
  | expr x => simp [contains, setExprKind]
  | stmt s => rfl

theorem stmt_setStmtKind (a : Arena) (s x : StmtId) (kind : Stmt ExprId StmtId) :
    (a.setStmtKind s kind).stmt x =
      (a.stmt x).map fun node => if s = x then { node with kind } else node :=
  a.stmt_modify s x _

@[simp] theorem parent_setStmtKind (a : Arena) (s : StmtId) (kind : Stmt ExprId StmtId)
    (n : NodeId) : (a.setStmtKind s kind).parent n = a.parent n := by
  cases n with
  | expr e => rfl
  | stmt x =>
    rw [parent_stmt_eq, parent_stmt_eq]
    exact a.map_stmt_modify_of_eq s x fun _ => rfl

theorem children_setStmtKind (a : Arena) (h : a.contains (.stmt s)) (kind : Stmt ExprId StmtId)
    (n : NodeId) : (a.setStmtKind s kind).children n =
      if n = .stmt s then .ok (kind.exprSlots.map .expr ++ kind.stmtSlots.map .stmt)
      else a.children n := by
  cases n with
  | expr e => rfl
  | stmt x =>
    simp only [children_stmt_eq, NodeId.stmt.injEq]
    exact map_stmt_modify h x fun _ => rfl

@[simp] theorem contains_setStmtKind (a : Arena) (s : StmtId) (kind : Stmt ExprId StmtId)
    (n : NodeId) : (a.setStmtKind s kind).contains n = a.contains n := by
  cases n with
  | expr e => rfl
  | stmt x => simp [contains, setStmtKind]

/-! ## Adopting -/

/-- The node `p` has become the parent of the nodes `cs`, and nothing else has changed. -/
structure Adopts (a b : Arena) (p : NodeId) (cs : List NodeId) : Prop where
  contains : ∀ n, b.contains n = a.contains n
  children : ∀ n, b.children n = a.children n
  parent_of_mem : ∀ c ∈ cs, b.parent c = .ok (some p)
  parent_of_not_mem : ∀ c ∉ cs, b.parent c = a.parent c

namespace Adopts

theorem nil (a : Arena) (p : NodeId) : a.Adopts a p [] where
  contains _ := rfl
  children _ := rfl
  parent_of_mem _ h := (List.not_mem_nil h).elim
  parent_of_not_mem _ _ := rfl

theorem append {cs' : List NodeId} (h : a.Adopts b p cs) (h' : b.Adopts b' p cs') :
    a.Adopts b' p (cs ++ cs') where
  contains n := (h'.contains n).trans (h.contains n)
  children n := (h'.children n).trans (h.children n)
  parent_of_mem n hn := by
    by_cases hmem : n ∈ cs'
    · exact h'.parent_of_mem n hmem
    · rw [h'.parent_of_not_mem n hmem]
      exact h.parent_of_mem n ((List.mem_append.1 hn).resolve_right hmem)
  parent_of_not_mem n hn := by
    rw [List.mem_append, not_or] at hn
    rw [h'.parent_of_not_mem n hn.2, h.parent_of_not_mem n hn.1]

end Adopts

theorem exists_adoptExpr (h : a.contains (.expr e)) (p : NodeId) :
    ∃ b, a.adoptExpr p e = .ok b ∧ a.Adopts b p [.expr e] := by
  obtain ⟨node, hnode⟩ := exists_expr h
  refine ⟨a.setExprParent e (some p), by rw [adoptExpr, hnode]; rfl, ?_⟩
  exact {
    contains := contains_setExprParent a e (some p)
    children := children_setExprParent a e (some p)
    parent_of_mem := fun c hc => by
      rw [parent_setExprParent a h, if_pos (List.mem_singleton.1 hc)]
    parent_of_not_mem := fun c hc => by
      rw [parent_setExprParent a h, if_neg fun heq => hc (List.mem_singleton.2 heq)] }

theorem exists_adoptStmt (h : a.contains (.stmt s)) (p : StmtId) :
    ∃ b, a.adoptStmt p s = .ok b ∧ a.Adopts b (.stmt p) [.stmt s] := by
  obtain ⟨node, hnode⟩ := exists_stmt h
  refine ⟨a.setStmtParent s (some p), by rw [adoptStmt, hnode]; rfl, ?_⟩
  exact {
    contains := contains_setStmtParent a s (some p)
    children := children_setStmtParent a s (some p)
    parent_of_mem := fun c hc => by
      rw [parent_setStmtParent a h, if_pos (List.mem_singleton.1 hc)]
      rfl
    parent_of_not_mem := fun c hc => by
      rw [parent_setStmtParent a h, if_neg fun heq => hc (List.mem_singleton.2 heq)] }

/-- What each step keeps, the steps keep one after another. -/
theorem foldlM_invariant {α β : Type} {f : β → α → Except Fault β} {I : β → Prop} {xs : List α}
    (step : ∀ s t, ∀ x ∈ xs, I s → f s x = .ok t → I t) {s t : β} (hs : I s)
    (h : xs.foldlM f s = .ok t) : I t := by
  induction xs generalizing s with
  | nil =>
    cases h
    exact hs
  | cons x rest ih =>
    rw [List.foldlM_cons] at h
    cases hx : f s x with
    | error fault => rw [hx] at h; cases h
    | ok u =>
      rw [hx] at h
      exact ih (fun s t y hy => step s t y (List.mem_cons_of_mem x hy))
        (step s u x List.mem_cons_self hs hx) h

/-- Adopting nodes one after another. -/
theorem exists_foldlM_adopt {α : Type} {adopt : Arena → α → Except Fault Arena} {node : α → NodeId}
    (step : ∀ a x, a.contains (node x) → ∃ b, adopt a x = .ok b ∧ a.Adopts b p [node x])
    (xs : List α) (h : ∀ x ∈ xs, a.contains (node x)) :
    ∃ b, xs.foldlM adopt a = .ok b ∧ a.Adopts b p (xs.map node) := by
  induction xs generalizing a with
  | nil => exact ⟨a, rfl, .nil a p⟩
  | cons x rest ih =>
    obtain ⟨b, hb, hx⟩ := step a x (h x List.mem_cons_self)
    obtain ⟨c, hc, hrest⟩ := ih (a := b) fun y hy => by
      rw [hx.contains]
      exact h y (List.mem_cons_of_mem _ hy)
    refine ⟨c, ?_, hx.append hrest⟩
    rw [List.foldlM_cons, hb]
    exact hc

/-! ## Adding -/

/-- The new node `n` has the children `cs`, but is not their parent yet. -/
structure Pushes (a b : Arena) (n : NodeId) (cs : List NodeId) : Prop where
  fresh : a.contains n = false
  contains : ∀ m, b.contains m = (decide (m = n) || a.contains m)
  children_new : b.children n = .ok cs
  children_old : ∀ m, m ≠ n → b.children m = a.children m
  parent_new : b.parent n = .ok none
  parent_old : ∀ m, m ≠ n → b.parent m = a.parent m

theorem expr_push (a : Arena) (node : ExprNode) (x : ExprId) :
    expr { a with exprs := a.exprs.push node } x =
      if x = ⟨a.exprs.size⟩ then .ok node else a.expr x := by
  rw [expr, expr, Array.getElem?_push]
  by_cases h : x.index = a.exprs.size <;> simp [h, ExprId.ext_iff]

theorem pushes_expr (a : Arena) (kind : Expr ExprId) :
    a.Pushes { a with exprs := a.exprs.push { kind } } (.expr ⟨a.exprs.size⟩)
      (kind.slots.map .expr) := by
  have hexpr := a.expr_push { kind }
  exact {
    fresh := by simp [contains]
    contains := fun m => by
      cases m with
      | stmt s => simp [contains]
      | expr x =>
        rw [Bool.eq_iff_iff]
        simp only [contains, Array.size_push, NodeId.expr.injEq, ExprId.ext_iff, Bool.or_eq_true,
          decide_eq_true_eq]
        omega
    children_new := by rw [children_of_expr (by rw [hexpr, if_pos rfl])]
    children_old := fun m hm => by
      cases m with
      | stmt s => rfl
      | expr x =>
        rw [children_expr_eq, children_expr_eq, hexpr, if_neg fun h => hm (congrArg NodeId.expr h)]
    parent_new := by rw [parent_of_expr (by rw [hexpr, if_pos rfl])]
    parent_old := fun m hm => by
      cases m with
      | stmt s => rfl
      | expr x =>
        rw [parent_expr_eq, parent_expr_eq, hexpr, if_neg fun h => hm (congrArg NodeId.expr h)] }

theorem pushes_stmt (a : Arena) (kind : Stmt ExprId StmtId) (ownsScope : Bool) :
    a.Pushes { a with stmts := a.stmts.push { kind, ownsScope } } (.stmt ⟨a.stmts.size⟩)
      (kind.exprSlots.map .expr ++ kind.stmtSlots.map .stmt) := by
  have hstmt : ∀ x, stmt { a with stmts := a.stmts.push { kind, ownsScope } } x =
      if x = ⟨a.stmts.size⟩ then .ok { kind, ownsScope } else a.stmt x := by
    intro x
    rw [stmt, stmt, Array.getElem?_push]
    by_cases h : x.index = a.stmts.size <;> simp [h, StmtId.ext_iff]
  exact {
    fresh := by simp [contains]
    contains := fun m => by
      cases m with
      | expr e => simp [contains]
      | stmt x =>
        rw [Bool.eq_iff_iff]
        simp only [contains, Array.size_push, NodeId.stmt.injEq, StmtId.ext_iff, Bool.or_eq_true,
          decide_eq_true_eq]
        omega
    children_new := by rw [children_of_stmt (by rw [hstmt, if_pos rfl])]
    children_old := fun m hm => by
      cases m with
      | expr e => rfl
      | stmt x =>
        rw [children_stmt_eq, children_stmt_eq, hstmt, if_neg fun h => hm (congrArg NodeId.stmt h)]
    parent_new := by rw [parent_of_stmt (by rw [hstmt, if_pos rfl])]; rfl
    parent_old := fun m hm => by
      cases m with
      | expr e => rfl
      | stmt x =>
        rw [parent_stmt_eq, parent_stmt_eq, hstmt, if_neg fun h => hm (congrArg NodeId.stmt h)] }

/-- A new node `n` without a parent has become the parent of the nodes `cs`, which are its
children. -/
structure Adds (a b : Arena) (n : NodeId) (cs : List NodeId) : Prop where
  fresh : a.contains n = false
  contains : ∀ m, b.contains m = (decide (m = n) || a.contains m)
  children_new : b.children n = .ok cs
  children_old : ∀ m, m ≠ n → b.children m = a.children m
  parent_new : b.parent n = .ok none
  parent_of_mem : ∀ c ∈ cs, b.parent c = .ok (some n)
  parent_of_not_mem : ∀ c, c ≠ n → c ∉ cs → b.parent c = a.parent c

theorem Pushes.adds (hb : a.Pushes b n cs) (hcs : ∀ c ∈ cs, a.contains c)
    (hb' : b.Adopts b' n cs) : a.Adds b' n cs where
  fresh := hb.fresh
  contains m := (hb'.contains m).trans (hb.contains m)
  children_new := (hb'.children n).trans hb.children_new
  children_old m hm := (hb'.children m).trans (hb.children_old m hm)
  parent_new := by
    have hn : n ∉ cs := fun h => by simpa [hb.fresh] using hcs n h
    rw [hb'.parent_of_not_mem n hn, hb.parent_new]
  parent_of_mem := hb'.parent_of_mem
  parent_of_not_mem m hm hmem := (hb'.parent_of_not_mem m hmem).trans (hb.parent_old m hm)

namespace Adds

theorem not_child (h : a.Adds b n cs) : ¬ a.Child n c := by
  rintro ⟨ds, hds, -⟩
  have hcontains := contains_of_children hds
  rw [h.fresh] at hcontains
  cases hcontains

theorem child_iff (h : a.Adds b n cs) : b.Child p c ↔ p = n ∧ c ∈ cs ∨ a.Child p c := by
  by_cases hp : p = n
  · subst hp
    have hchild : b.Child p c ↔ c ∈ cs := by simp [Child, h.children_new]
    simp only [hchild, true_and, h.not_child, or_false]
  · simp [Child, h.children_old p hp, hp]

theorem parent_iff (h : a.Adds b n cs) (hcs : ∀ c ∈ cs, a.Detached c) :
    b.Parent c p ↔ p = n ∧ c ∈ cs ∨ a.Parent c p := by
  by_cases hc : c ∈ cs
  · have hparent : b.Parent c n := h.parent_of_mem c hc
    simp only [hc, and_true, (hcs c hc).not_parent, or_false]
    exact ⟨fun hp => hp.unique hparent, fun hp => hp ▸ hparent⟩
  · by_cases hn : c = n
    · subst hn
      have hold : ¬ a.Parent c p := by
        intro hp
        have hcontains := contains_of_parent hp
        rw [h.fresh] at hcontains
        cases hcontains
      have hnew : ¬ b.Parent c p := Detached.not_parent h.parent_new p
      simp [hc, hold, hnew]
    · simp [Parent, h.parent_of_not_mem c hn hc, hc]

end Adds

/-- An expression can be made of expressions that the arena has. -/
theorem exists_addExpr {kind : Expr ExprId} (h : ∀ x ∈ kind.slots, a.contains (.expr x)) :
    ∃ b, a.addExpr kind = .ok (b, ⟨a.exprs.size⟩) ∧
      a.Adds b (.expr ⟨a.exprs.size⟩) (kind.slots.map .expr) := by
  have hpush := a.pushes_expr kind
  obtain ⟨b, hb, hadopts⟩ := exists_foldlM_adopt (p := .expr ⟨a.exprs.size⟩)
    (fun a x hx => exists_adoptExpr hx _) (a := { a with exprs := a.exprs.push { kind } })
    kind.slots fun x hx => by rw [hpush.contains, h x hx, Bool.or_true]
  refine ⟨b, by rw [addExpr, hb]; rfl, hpush.adds (fun c hc => ?_) hadopts⟩
  obtain ⟨x, hx, rfl⟩ := List.mem_map.1 hc
  exact h x hx

/-- A statement can be made of expressions and statements that the arena has. -/
theorem exists_addStmt {kind : Stmt ExprId StmtId}
    (hexprs : ∀ x ∈ kind.exprSlots, a.contains (.expr x))
    (hstmts : ∀ x ∈ kind.stmtSlots, a.contains (.stmt x)) :
    ∃ b, a.addStmt kind = .ok (b, ⟨a.stmts.size⟩) ∧ a.Adds b (.stmt ⟨a.stmts.size⟩)
      (kind.exprSlots.map .expr ++ kind.stmtSlots.map .stmt) := by
  have hpush := a.pushes_stmt kind kind.opensScope
  obtain ⟨b, hb, hexprs'⟩ := exists_foldlM_adopt (p := .stmt ⟨a.stmts.size⟩)
    (fun a x hx => exists_adoptExpr hx _)
    (a := { a with stmts := a.stmts.push { kind, ownsScope := kind.opensScope } })
    kind.exprSlots fun x hx => by rw [hpush.contains, hexprs x hx, Bool.or_true]
  obtain ⟨c, hc, hstmts'⟩ := exists_foldlM_adopt (p := .stmt ⟨a.stmts.size⟩)
    (fun a x hx => exists_adoptStmt hx _) (a := b) kind.stmtSlots fun x hx => by
      rw [hexprs'.contains, hpush.contains, hstmts x hx, Bool.or_true]
  refine ⟨c, ?_, hpush.adds (fun n hn => ?_) (hexprs'.append hstmts')⟩
  · rw [addStmt]
    simp only [bind, Except.bind, hb, hc]
    rfl
  · rcases List.mem_append.1 hn with hn | hn
    · obtain ⟨x, hx, rfl⟩ := List.mem_map.1 hn
      exact hexprs x hx
    · obtain ⟨x, hx, rfl⟩ := List.mem_map.1 hn
      exact hstmts x hx

/-! ## Rewiring -/

/-- The expression `new` has taken the place of `old` below `p`. If `p` was the parent of `old`,
then `old` has no parent any more. -/
structure Rewires (a b : Arena) (p : NodeId) (old new : ExprId) : Prop where
  contains : ∀ n, b.contains n = a.contains n
  children_parent : ∃ cs, a.children p = .ok cs ∧ .expr old ∈ cs ∧
    b.children p = .ok (cs.replace (.expr old) (.expr new))
  children_frame : ∀ n, n ≠ p → b.children n = a.children n
  parent_new : b.parent (.expr new) = .ok (some p)
  parent_old : old ≠ new → b.parent (.expr old) =
    if a.parent (.expr old) = .ok (some p) then .ok none else a.parent (.expr old)
  parent_frame : ∀ n, n ≠ .expr old → n ≠ .expr new → b.parent n = a.parent n

namespace Rewires

theorem child_new (h : a.Rewires b p old new) : b.Child p (.expr new) := by
  obtain ⟨cs, -, hold, hcs'⟩ := h.children_parent
  exact ⟨_, hcs', mem_replace_self hold⟩

/-- Whatever is not replaced keeps its slots. -/
theorem child_of_ne (h : a.Rewires b p old new) {q : NodeId} (hc : a.Child q c)
    (hne : q = p → c ≠ .expr old) : b.Child q c := by
  by_cases hq : q = p
  · subst hq
    obtain ⟨cs, hcs, hold, hcs'⟩ := h.children_parent
    obtain ⟨ds, hds, hmem⟩ := hc
    cases hcs.symm.trans hds
    exact ⟨_, hcs', mem_replace_of_ne hold hmem (hne rfl)⟩
  · rwa [Child, h.children_frame q hq]

/-- No slot gets anything but the new expression. -/
theorem eq_or_child (h : a.Rewires b p old new) {q : NodeId} (hc : b.Child q c) :
    q = p ∧ c = .expr new ∨ a.Child q c := by
  by_cases hq : q = p
  · subst hq
    obtain ⟨cs, hcs, hold, hcs'⟩ := h.children_parent
    obtain ⟨ds, hds, hmem⟩ := hc
    cases hcs'.symm.trans hds
    exact (eq_or_mem_of_mem_replace hold hmem).imp (⟨rfl, ·⟩) fun hmem => ⟨cs, hcs, hmem⟩
  · rw [Child, h.children_frame q hq] at hc
    exact .inr hc

theorem child_iff (h : a.Rewires b p old new) (hnodup : ∀ q cs, a.children q = .ok cs → cs.Nodup)
    {q : NodeId} : b.Child q c ↔
      q = p ∧ c = .expr new ∨ ¬ (q = p ∧ c = .expr old) ∧ a.Child q c := by
  by_cases hq : q = p
  · subst hq
    obtain ⟨cs, hcs, hold, hcs'⟩ := h.children_parent
    simp [Child, hcs, hcs', mem_replace_iff (hnodup q cs hcs) hold]
  · simp [Child, h.children_frame q hq, hq]

theorem parent_iff (h : a.Rewires b p old new) (hnew : a.Detached (.expr new)) {q : NodeId} :
    b.Parent c q ↔ q = p ∧ c = .expr new ∨ ¬ (q = p ∧ c = .expr old) ∧ a.Parent c q := by
  by_cases hc : c = .expr new
  · subst hc
    have hparent : b.Parent (.expr new) p := h.parent_new
    simp only [and_true, hnew.not_parent, and_false, or_false]
    exact ⟨fun hq => hq.unique hparent, fun hq => hq ▸ hparent⟩
  · by_cases hold : c = .expr old
    · subst hold
      have hparent := h.parent_old fun heq => hc (congrArg NodeId.expr heq)
      by_cases hp : a.parent (.expr old) = .ok (some p)
      · rw [if_pos hp] at hparent
        have hfree : ¬ b.Parent (.expr old) q := Detached.not_parent hparent q
        simp only [hc, and_false, and_true, false_or, hfree, false_iff, not_and]
        exact fun hq hq' => hq (Parent.unique hq' hp)
      · rw [if_neg hp] at hparent
        simp only [hc, and_false, and_true, false_or, Parent, hparent]
        refine ⟨fun hq => ⟨?_, hq⟩, And.right⟩
        rintro rfl
        exact hp hq
    · simp [Parent, h.parent_frame c hold hc, hc, hold]

end Rewires

theorem parentOf?_eq_some : a.parentOf? e = some p ↔ a.Parent (.expr e) p := by
  rw [Parent, parent_expr_eq, parentOf?, expr]
  cases a.exprs[e.index]? <;> simp [Except.map]

theorem detached_of_parentOf?_eq_none (he : a.contains (.expr e)) (h : a.parentOf? e = none) :
    a.Detached (.expr e) := by
  obtain ⟨node, hnode⟩ := exists_expr he
  rw [parentOf?, expr_eq_ok_iff.1 hnode, Option.bind_some] at h
  rw [Detached, parent_of_expr hnode, h]

theorem Detached.parentOf?_eq_none (h : a.Detached (.expr e)) : a.parentOf? e = none := by
  rw [Option.eq_none_iff_forall_ne_some]
  intro p hp
  exact h.not_parent p (parentOf?_eq_some.1 hp)

theorem replaceSlot?_expr_eq_some {q : ExprId} : a.replaceSlot? (.expr q) old new = some b ↔
    ∃ node kind, a.expr q = .ok node ∧ node.kind.replaceFirst? old new = some kind ∧
      a.setExprKind q kind = b := by
  simp [replaceSlot?, Option.bind_eq_some_iff, expr_eq_ok_iff]

theorem replaceSlot?_stmt_eq_some {q : StmtId} : a.replaceSlot? (.stmt q) old new = some b ↔
    ∃ node kind, a.stmt q = .ok node ∧ node.kind.replaceFirst? old new = some kind ∧
      a.setStmtKind q kind = b := by
  simp [replaceSlot?, Option.bind_eq_some_iff, stmt_eq_ok_iff]

theorem contains_of_replaceSlot? (h : a.replaceSlot? p old new = some b) (n : NodeId) :
    b.contains n = a.contains n := by
  cases p with
  | expr q =>
    obtain ⟨_, kind, -, -, rfl⟩ := replaceSlot?_expr_eq_some.1 h
    exact contains_setExprKind a q kind n
  | stmt q =>
    obtain ⟨_, kind, -, -, rfl⟩ := replaceSlot?_stmt_eq_some.1 h
    exact contains_setStmtKind a q kind n

theorem parent_of_replaceSlot? (h : a.replaceSlot? p old new = some b) (n : NodeId) :
    b.parent n = a.parent n := by
  cases p with
  | expr q =>
    obtain ⟨_, kind, -, -, rfl⟩ := replaceSlot?_expr_eq_some.1 h
    exact parent_setExprKind a q kind n
  | stmt q =>
    obtain ⟨_, kind, -, -, rfl⟩ := replaceSlot?_stmt_eq_some.1 h
    exact parent_setStmtKind a q kind n

/-- If `old` stands in a slot of `p`, another expression can be put there. -/
theorem exists_replaceSlot? (h : a.Child p (.expr old)) (new : ExprId) :
    ∃ b cs, a.replaceSlot? p old new = some b ∧ (∀ n, b.contains n = a.contains n) ∧
      (∀ n, b.parent n = a.parent n) ∧ a.children p = .ok cs ∧ .expr old ∈ cs ∧
      b.children p = .ok (cs.replace (.expr old) (.expr new)) ∧
      ∀ n, n ≠ p → b.children n = a.children n := by
  have hinjective : Function.Injective NodeId.expr := fun _ _ => NodeId.expr.inj
  obtain ⟨cs, hcs, hmem⟩ := h
  cases p with
  | expr q =>
    cases hq : a.expr q with
    | error fault => rw [children, hq] at hcs; cases hcs
    | ok node =>
      rw [children_of_expr hq] at hcs
      cases hcs
      have hold : old ∈ node.kind.slots := (List.mem_map_of_injective hinjective).1 hmem
      have hfound : node.kind.replaceFirst? old new ≠ none :=
        fun hnone => Expr.replaceFirst?_eq_none.1 hnone hold
      obtain ⟨kind, hkind⟩ := Option.ne_none_iff_exists'.1 hfound
      have hchildren := a.children_setExprKind (contains_of_expr hq) kind
      refine ⟨a.setExprKind q kind, _, replaceSlot?_expr_eq_some.2 ⟨node, kind, hq, hkind, rfl⟩,
        contains_setExprKind a q kind, parent_setExprKind a q kind, children_of_expr hq, hmem, ?_,
        fun n hn => ?_⟩
      · rw [hchildren, if_pos rfl, Expr.slots_of_replaceFirst? hkind, replace_map hinjective]
      · rw [hchildren, if_neg hn]
  | stmt q =>
    cases hq : a.stmt q with
    | error fault => rw [children, hq] at hcs; cases hcs
    | ok node =>
      rw [children_of_stmt hq] at hcs
      cases hcs
      have hold : old ∈ node.kind.exprSlots := by simpa using hmem
      have hfound : node.kind.replaceFirst? old new ≠ none :=
        fun hnone => Stmt.replaceFirst?_eq_none.1 hnone hold
      obtain ⟨kind, hkind⟩ := Option.ne_none_iff_exists'.1 hfound
      obtain ⟨hexprs, hstmts⟩ := Stmt.slots_of_replaceFirst? hkind
      have hchildren := a.children_setStmtKind (contains_of_stmt hq) kind
      refine ⟨a.setStmtKind q kind, _, replaceSlot?_stmt_eq_some.2 ⟨node, kind, hq, hkind, rfl⟩,
        contains_setStmtKind a q kind, parent_setStmtKind a q kind, children_of_stmt hq, hmem, ?_,
        fun n hn => ?_⟩
      · rw [hchildren, if_pos rfl, hexprs, hstmts,
          List.replace_append_left (List.mem_map_of_mem hold), replace_map hinjective]
      · rw [hchildren, if_neg hn]

/-- Rewiring neither makes nodes nor takes any away. -/
theorem contains_of_rewire (h : a.rewire p old new = .ok b) (n : NodeId) :
    b.contains n = a.contains n := by
  rw [rewire] at h
  cases hslot : a.replaceSlot? p old new with
  | none => rw [hslot] at h; cases h
  | some c =>
    rw [hslot] at h
    cases h
    rw [contains_setExprParent, ← contains_of_replaceSlot? hslot]
    split_ifs
    · exact contains_setExprParent c old none n
    · rfl

/-- What freeing an expression does to the parents, if it is only done below `p`. -/
theorem parent_freed (a : Arena) (e : ExprId) (p n : NodeId) :
    (if a.parentOf? e = some p then a.setExprParent e none else a).parent n =
      if n = .expr e ∧ a.parent (.expr e) = .ok (some p) then .ok none else a.parent n := by
  have hiff : a.parentOf? e = some p ↔ a.parent (.expr e) = .ok (some p) := parentOf?_eq_some
  by_cases h : a.parentOf? e = some p
  · rw [if_pos h, parent_setExprParent a (contains_of_parent (hiff.1 h))]
    simp [hiff.1 h]
  · rw [if_neg h, if_neg fun hn => h (hiff.2 hn.2)]

/-- If `old` stands in a slot of `p`, another expression can take its place. -/
theorem exists_rewire (h : a.Child p (.expr old)) (hnew : a.contains (.expr new)) :
    ∃ b, a.rewire p old new = .ok b ∧ a.Rewires b p old new := by
  obtain ⟨b, cs, hb, hcontains, hparent, hcs, hold, hchildren, hframe⟩ := exists_replaceSlot? h new
  generalize hc : (if b.parentOf? old = some p then b.setExprParent old none else b) = c
  have hc_contains : ∀ n, c.contains n = a.contains n := by
    intro n
    rw [← hc, ← hcontains]
    split_ifs <;> simp
  have hc_children : ∀ n, c.children n = b.children n := by
    intro n
    rw [← hc]
    split_ifs <;> simp
  have hc_parent : ∀ n, c.parent n =
      if n = .expr old ∧ a.parent (.expr old) = .ok (some p) then .ok none else a.parent n := by
    intro n
    rw [← hc, parent_freed, hparent, hparent]
  have hset := c.parent_setExprParent ((hc_contains _).trans hnew) (some p)
  refine ⟨c.setExprParent new (some p), ?_, ?_⟩
  · rw [rewire, hb]
    simp only [hc]
  · exact {
      contains := fun n => by rw [contains_setExprParent, hc_contains]
      children_parent := ⟨cs, hcs, hold, by rw [children_setExprParent, hc_children, hchildren]⟩
      children_frame := fun n hn => by rw [children_setExprParent, hc_children, hframe n hn]
      parent_new := by rw [hset, if_pos rfl]
      parent_old := fun hne => by
        rw [hset, if_neg fun h => hne (NodeId.expr.inj h), hc_parent]
        simp only [true_and]
      parent_frame := fun n hold hnew => by
        rw [hset, if_neg hnew, hc_parent, if_neg fun h => hold h.1] }

end ExprTyping.Arena
