import ExprTyping.Proofs.Arena.Climb
import ExprTyping.Proofs.Edit.Forest

/-!
# Shared nodes

Nothing keeps a caller from making a node an operand twice, or an operand of a second node. The
node's parent is then the one that took it last, and the slots that held it before go stale. A tree
built like that is no forest, but parent links never go wrong: every stored handle names a node, and
the recorded parent of a node holds the node in a slot (`Arena.Anchored`).

* What a constructor, a freed expression and a rewired slot do to an arena keeps it anchored, with
  no condition on what is shared.
* `Construction` is the work of a builder: constructor calls, one after another.
* `Tree.Call` is a call of any of the operations and `Tree.Assembled` a tree made by such calls.
  All of them are anchored, so that nothing fails on them for want of a node
  (`Tree.anchored_of_assembled`).
-/

namespace ExprTyping

open Relation

namespace Arena

variable {a b : Arena} {n p c : NodeId} {cs : List NodeId} {e old new : ExprId}

/-! ## The invariant -/

/-- Stored handles name nodes, and the recorded parent of a node holds it in a slot. -/
structure Anchored (a : Arena) : Prop where
  contains_child : ∀ p c, a.Child p c → a.contains c
  child_of_parent : ∀ c p, a.Parent c p → a.Child p c

namespace Anchored

theorem contains_parent (h : a.Anchored) (hp : a.Parent c p) : a.contains p := by
  obtain ⟨cs, hcs, -⟩ := h.child_of_parent c p hp
  exact contains_of_children hcs

theorem empty : Anchored {} where
  contains_child p c h := by
    obtain ⟨cs, hcs, -⟩ := h
    cases p <;> cases hcs
  child_of_parent c p h := by cases c <;> cases h

/-- A new node may take over any nodes, also such that have a parent or come twice. -/
theorem adds (h : a.Anchored) (hb : a.Adds b n cs) (hcs : ∀ c ∈ cs, a.contains c) :
    b.Anchored where
  contains_child p c hc := by
    have hold : a.contains c := by
      rcases hb.child_iff.1 hc with ⟨-, hmem⟩ | hc
      · exact hcs c hmem
      · exact h.contains_child p c hc
    rw [hb.contains, hold, Bool.or_true]
  child_of_parent c p hp := by
    by_cases hmem : c ∈ cs
    · have hn : p = n := hp.unique (hb.parent_of_mem c hmem)
      exact hb.child_iff.2 (.inl ⟨hn, hmem⟩)
    · have hne : c ≠ n := fun heq => Detached.not_parent hb.parent_new p (heq ▸ hp)
      rw [Parent, hb.parent_of_not_mem c hne hmem] at hp
      exact hb.child_iff.2 (.inr (h.child_of_parent c p hp))

/-- An expression that loses its parent leaves a stale slot, which is allowed. -/
theorem free (h : a.Anchored) (he : a.contains (.expr e)) :
    (a.setExprParent e none).Anchored where
  contains_child p c hc := by
    rw [Child, children_setExprParent] at hc
    rw [contains_setExprParent]
    exact h.contains_child p c hc
  child_of_parent c p hp := by
    rw [Parent, a.parent_setExprParent he] at hp
    rw [Child, children_setExprParent]
    by_cases hc : c = .expr e
    · rw [if_pos hc] at hp
      cases hp
    · rw [if_neg hc] at hp
      exact h.child_of_parent c p hp

/-- If `old` stands in further slots of `p`, these go stale: the parent of `old` is not `p` any
more. -/
theorem rewires (h : a.Anchored) (hb : a.Rewires b p old new) (hnew : a.contains (.expr new)) :
    b.Anchored where
  contains_child q c hc := by
    rw [hb.contains]
    rcases hb.eq_or_child hc with ⟨-, rfl⟩ | hc
    · exact hnew
    · exact h.contains_child q c hc
  child_of_parent c q hq := by
    by_cases hc : c = .expr new
    · subst hc
      have hp : q = p := hq.unique hb.parent_new
      exact hp ▸ hb.child_new
    · by_cases hold : c = .expr old
      · subst hold
        have hparent := hb.parent_old fun heq => hc (congrArg NodeId.expr heq)
        by_cases hp : a.parent (.expr old) = .ok (some p)
        · rw [if_pos hp] at hparent
          exact absurd hq (Detached.not_parent hparent q)
        · rw [if_neg hp] at hparent
          rw [Parent, hparent] at hq
          exact hb.child_of_ne (h.child_of_parent _ q hq) fun heq => absurd (heq ▸ hq) hp
      · rw [Parent, hb.parent_frame c hold hc] at hq
        exact hb.child_of_ne (h.child_of_parent c q hq) fun _ => hold

end Anchored
end Arena

/-! ## Operations that find their nodes -/

/-- The operation meets no handle without a node. It may still walk in a circle. -/
def Finds {α : Type} (x : Except Fault α) : Prop := ∀ fault, x = .error fault → fault = .endless

namespace Finds

variable {α β : Type}

theorem ok (r : α) : Finds (.ok r) := fun _ h => by cases h

theorem endless : Finds (.error .endless : Except Fault α) := fun _ h => by
  cases h
  rfl

theorem bind {x : Except Fault α} {f : α → Except Fault β} (hx : Finds x)
    (hf : ∀ r, x = .ok r → Finds (f r)) : Finds (x >>= f) := by
  cases x with
  | ok r => exact hf r rfl
  | error fault => rw [hx fault rfl]; exact endless

theorem mapM {f : α → Except Fault β} (xs : List α) (h : ∀ x ∈ xs, Finds (f x)) :
    Finds (xs.mapM f) := by
  induction xs with
  | nil => exact ok []
  | cons x rest ih =>
    rw [List.mapM_cons]
    exact (h x List.mem_cons_self).bind fun _ _ =>
      (ih fun y hy => h y (List.mem_cons_of_mem x hy)).bind fun _ _ => ok _

end Finds

namespace Arena.Anchored

variable {a : Arena} {n : NodeId} {e : ExprId}

theorem exists_parentExpr (h : a.Anchored) (he : a.contains (.expr e)) :
    ∃ p, a.parentExpr e = .ok p ∧ ∀ q ∈ p, a.contains (.expr q) := by
  obtain ⟨node, hnode⟩ := exists_expr he
  have hparent := parent_of_expr hnode
  rw [parentExpr_of_expr hnode]
  split
  · rename_i p hp
    refine ⟨some p, rfl, fun q hq => ?_⟩
    cases hq
    exact h.contains_parent (hparent.trans (congrArg Except.ok hp))
  · exact ⟨none, rfl, fun q hq => by cases hq⟩

theorem exists_isCallee (h : a.Anchored) (he : a.contains (.expr e)) :
    ∃ r, a.isCallee e = .ok r := by
  obtain ⟨p, hp, hcontains⟩ := h.exists_parentExpr he
  rw [isCallee, hp]
  cases p with
  | none => exact ⟨_, rfl⟩
  | some p =>
    obtain ⟨node, hnode⟩ := exists_expr (hcontains p rfl)
    exact ⟨_, bind_eq_ok_iff.2 ⟨some p, rfl, bind_eq_ok_iff.2 ⟨node, hnode, rfl⟩⟩⟩

theorem exists_isReceiver (h : a.Anchored) (he : a.contains (.expr e)) :
    ∃ r, a.isReceiver e = .ok r := by
  obtain ⟨p, hp, hcontains⟩ := h.exists_parentExpr he
  rw [isReceiver, hp]
  cases p with
  | none => exact ⟨_, rfl⟩
  | some p =>
    obtain ⟨node, hnode⟩ := exists_expr (hcontains p rfl)
    exact ⟨_, bind_eq_ok_iff.2 ⟨some p, rfl, bind_eq_ok_iff.2 ⟨node, hnode, rfl⟩⟩⟩

theorem finds_firstUpwardWithin {α : Type} (h : a.Anchored) (pick : StmtId → StmtNode → Option α)
    (bound : ℕ) (hn : a.contains n) : Finds (a.firstUpwardWithin pick bound n) := by
  induction bound generalizing n with
  | zero => cases n <;> exact .endless
  | succ bound ih =>
    rw [firstUpwardWithin_succ]
    cases a.answer? pick n with
    | some answer => exact .ok _
    | none =>
      obtain ⟨q, hq⟩ := exists_parent hn
      cases q with
      | none =>
        dsimp only
        rw [onward_of_no_parent hq]
        exact .ok none
      | some p =>
        dsimp only
        rw [onward_of_parent hq]
        exact ih (h.contains_parent hq)

theorem finds_nodesWithin (h : a.Anchored) (depth : ℕ) (hn : a.contains n) :
    Finds (a.nodesWithin depth n) := by
  induction depth generalizing n with
  | zero => exact .endless
  | succ depth ih =>
    obtain ⟨cs, hcs⟩ := exists_children hn
    rw [nodesWithin, hcs]
    refine (Finds.ok cs).bind fun cs' hcs' => ?_
    cases hcs'
    exact (Finds.mapM cs fun c hc => ih (h.contains_child n c ⟨cs, hcs, hc⟩)).bind
      fun _ _ => .ok _

end Arena.Anchored

namespace Tree

/-- No operation that is given nodes of the tree fails for want of a node. The walks, up or down,
may still run in a circle; all other operations succeed. -/
structure FindsNodes (t : Tree) : Prop where
  expr : ∀ e, t.contains (.expr e) → ∃ node, t.arena.expr e = .ok node
  stmt : ∀ s, t.contains (.stmt s) → ∃ node, t.arena.stmt s = .ok node
  parent : ∀ n, t.contains n → ∃ p, t.arena.parent n = .ok p
  parentExpr : ∀ e, t.contains (.expr e) → ∃ p, t.arena.parentExpr e = .ok p
  children : ∀ n, t.contains n → ∃ cs, t.arena.children n = .ok cs
  operands : ∀ e, t.contains (.expr e) → ∃ xs, t.arena.operands e = .ok xs
  isCallee : ∀ e, t.contains (.expr e) → ∃ r, t.arena.isCallee e = .ok r
  isReceiver : ∀ e, t.contains (.expr e) → ∃ r, t.arena.isReceiver e = .ok r
  nearestScope : ∀ n, t.contains n → Finds (t.arena.nearestScope n)
  definitionNamed : ∀ n name, t.contains n → Finds (t.definitionNamed? n name)
  nodes : ∀ n, Finds (t.arena.nodes n)
  addExpr : ∀ kind, (∀ x ∈ kind.slots, t.contains (.expr x)) → ∃ r, t.addExpr kind = .ok r
  addStmt : ∀ kind, (∀ x ∈ kind.exprSlots, t.contains (.expr x)) →
    (∀ x ∈ kind.stmtSlots, t.contains (.stmt x)) → ∃ r, t.addStmt kind = .ok r
  setExprKind : ∀ e kind, t.contains (.expr e) → ∃ t', t.setExprKind e kind = .ok t'
  setStmtKind : ∀ s kind, t.contains (.stmt s) → ∃ t', t.setStmtKind s kind = .ok t'
  setType : ∀ e type, t.contains (.expr e) → ∃ t', t.setType e type = .ok t'
  setBinding : ∀ e binding, t.contains (.expr e) → ∃ t', t.setBinding e binding = .ok t'
  setMember : ∀ e member, t.contains (.expr e) → ∃ t', t.setMember e member = .ok t'
  scope : ∀ s, t.contains (.stmt s) → ∃ scope, t.scope? s = .ok scope
  recordDefinition : ∀ s d, t.contains (.stmt s) → ∃ r, t.recordDefinition s d = .ok r
  clearScope : ∀ s, t.contains (.stmt s) → ∃ r, t.clearScope s = .ok r

variable {t t' : Tree} {old new : ExprId}

theorem exists_addExpr {kind : Expr ExprId} (h : ∀ x ∈ kind.slots, t.contains (.expr x)) :
    ∃ t', t.addExpr kind = .ok (t', ⟨t.arena.exprs.size⟩) ∧
      t.arena.Adds t'.arena (.expr ⟨t.arena.exprs.size⟩) (kind.slots.map .expr) := by
  obtain ⟨b, hb, hadds⟩ := Arena.exists_addExpr h
  exact ⟨{ t with arena := b }, by rw [addExpr, hb]; rfl, hadds⟩

theorem exists_addStmt {kind : Stmt ExprId StmtId}
    (hexprs : ∀ x ∈ kind.exprSlots, t.contains (.expr x))
    (hstmts : ∀ x ∈ kind.stmtSlots, t.contains (.stmt x)) :
    ∃ t', t.addStmt kind = .ok (t', ⟨t.arena.stmts.size⟩) ∧
      t.arena.Adds t'.arena (.stmt ⟨t.arena.stmts.size⟩)
        (kind.exprSlots.map .expr ++ kind.stmtSlots.map .stmt) := by
  obtain ⟨b, hb, hadds⟩ := Arena.exists_addStmt hexprs hstmts
  exact ⟨{ t with arena := b }, by rw [addStmt, hb]; rfl, hadds⟩

theorem exists_scope? {s : StmtId} (h : t.contains (.stmt s)) :
    ∃ scope, t.scope? s = .ok scope := by
  obtain ⟨node, hnode⟩ := Arena.exists_stmt h
  exact ⟨_, bind_eq_ok_iff.2 ⟨node, hnode, rfl⟩⟩

theorem findsNodes (h : t.arena.Anchored) : t.FindsNodes where
  expr _ := Arena.exists_expr
  stmt _ := Arena.exists_stmt
  parent _ := Arena.exists_parent
  parentExpr e he := by
    obtain ⟨p, hp, -⟩ := h.exists_parentExpr he
    exact ⟨p, hp⟩
  children _ := Arena.exists_children
  operands e he := by
    obtain ⟨node, hnode⟩ := Arena.exists_expr he
    exact ⟨_, bind_eq_ok_iff.2 ⟨node, hnode, rfl⟩⟩
  isCallee _ := h.exists_isCallee
  isReceiver _ := h.exists_isReceiver
  nearestScope _ := h.finds_firstUpwardWithin _ _
  definitionNamed _ _ := h.finds_firstUpwardWithin _ _
  nodes n := by
    rw [Arena.nodes]
    split_ifs with hn
    · exact h.finds_nodesWithin _ hn
    · exact .ok []
  addExpr kind hkind := by
    obtain ⟨t', ht', -⟩ := exists_addExpr hkind
    exact ⟨_, ht'⟩
  addStmt kind hexprs hstmts := by
    obtain ⟨t', ht', -⟩ := exists_addStmt hexprs hstmts
    exact ⟨_, ht'⟩
  setExprKind e kind he := by
    obtain ⟨node, hnode⟩ := Arena.exists_expr he
    exact ⟨_, bind_eq_ok_iff.2 ⟨node, hnode, rfl⟩⟩
  setStmtKind s kind hs := by
    obtain ⟨node, hnode⟩ := Arena.exists_stmt hs
    exact ⟨_, bind_eq_ok_iff.2 ⟨node, hnode, rfl⟩⟩
  setType e type he := by
    obtain ⟨node, hnode⟩ := Arena.exists_expr he
    exact ⟨_, bind_eq_ok_iff.2 ⟨node, hnode, rfl⟩⟩
  setBinding e binding he := by
    obtain ⟨node, hnode⟩ := Arena.exists_expr he
    exact ⟨_, bind_eq_ok_iff.2 ⟨node, hnode, rfl⟩⟩
  setMember e member he := by
    obtain ⟨node, hnode⟩ := Arena.exists_expr he
    exact ⟨_, bind_eq_ok_iff.2 ⟨node, hnode, rfl⟩⟩
  scope _ := exists_scope?
  recordDefinition s d hs := by
    obtain ⟨scope, hscope⟩ := exists_scope? hs
    rw [recordDefinition, hscope]
    cases scope <;> exact ⟨_, rfl⟩
  clearScope s hs := by
    obtain ⟨scope, hscope⟩ := exists_scope? hs
    rw [clearScope, hscope]
    cases scope <;> exact ⟨_, rfl⟩

end Tree

/-! ## Builders -/

/-- The work of a builder. It makes nodes, one after another, and names one in the end, which need
not be new. What it makes may depend on the handles that it has got. -/
inductive Construction where
  | done (new : ExprId)
  | expr (kind : Expr ExprId) (next : ExprId → Construction)
  | stmt (kind : Stmt ExprId StmtId) (next : StmtId → Construction)

namespace Construction

/-- Makes the nodes. -/
def run : Construction → Tree → Except Fault (Tree × ExprId)
  | done new, t => .ok (t, new)
  | expr kind next, t => do
    let (t', e) ← t.addExpr kind
    (next e).run t'
  | stmt kind next, t => do
    let (t', s) ← t.addStmt kind
    (next s).run t'

/-- Every node is made of nodes that the tree has at that time. -/
def Within : Construction → Tree → Prop
  | done _, _ => True
  | expr kind next, t => (∀ x ∈ kind.slots, t.contains (.expr x)) ∧
      ∀ t' e, t.addExpr kind = .ok (t', e) → (next e).Within t'
  | stmt kind next, t => (∀ x ∈ kind.exprSlots, t.contains (.expr x)) ∧
      (∀ x ∈ kind.stmtSlots, t.contains (.stmt x)) ∧
      ∀ t' s, t.addStmt kind = .ok (t', s) → (next s).Within t'

/-- The builder that makes these nodes out of the expression it is called for. -/
def builder (build : ExprId → Construction) : Tree.Builder := fun t old => (build old).run t

/-- The nodes can be made. No slot that is there loses what it holds. -/
theorem exists_run (c : Construction) {t : Tree} (h : c.Within t) (ht : t.arena.Anchored) :
    ∃ built new, c.run t = .ok (built, new) ∧ built.arena.Anchored ∧
      ∀ p n, t.arena.Child p n → built.arena.Child p n := by
  induction c generalizing t with
  | done new => exact ⟨t, new, rfl, ht, fun _ _ => id⟩
  | expr kind next ih =>
    obtain ⟨hslots, hnext⟩ := h
    obtain ⟨t', ht', hadds⟩ := Tree.exists_addExpr hslots
    have hanchored : t'.arena.Anchored := ht.adds hadds (List.forall_mem_map.2 hslots)
    obtain ⟨built, new, hrun, hbuilt, hkeeps⟩ := ih _ (hnext _ _ ht') hanchored
    exact ⟨built, new, bind_eq_ok_iff.2 ⟨_, ht', hrun⟩, hbuilt,
      fun p n hn => hkeeps p n (hadds.child_iff.2 (.inr hn))⟩
  | stmt kind next ih =>
    obtain ⟨hexprs, hstmts, hnext⟩ := h
    obtain ⟨t', ht', hadds⟩ := Tree.exists_addStmt hexprs hstmts
    have hanchored : t'.arena.Anchored := ht.adds hadds
      (List.forall_mem_append.2 ⟨List.forall_mem_map.2 hexprs, List.forall_mem_map.2 hstmts⟩)
    obtain ⟨built, new, hrun, hbuilt, hkeeps⟩ := ih _ (hnext _ _ ht') hanchored
    exact ⟨built, new, bind_eq_ok_iff.2 ⟨_, ht', hrun⟩, hbuilt,
      fun p n hn => hkeeps p n (hadds.child_iff.2 (.inr hn))⟩

end Construction

namespace Tree

variable {t t' : Tree} {old new : ExprId}

/-! ## Edits of anchored trees -/

theorem replaceExpr_ne_corruptParent (h : t.arena.Anchored) (c p : NodeId) :
    t.replaceExpr old new ≠ .error (.corruptParent c p) := by
  intro hcorrupt
  rw [replaceExpr] at hcorrupt
  by_cases hold : t.contains (.expr old)
  · by_cases hnew : t.contains (.expr new)
    · simp only [requireExpr, if_pos hold, if_pos hnew, bind, Except.bind] at hcorrupt
      split at hcorrupt
      · cases hcorrupt
      · split at hcorrupt
        · cases hcorrupt
        · split at hcorrupt
          · cases hcorrupt
          · rename_i q hq
            have hchild := h.child_of_parent _ q (Arena.parentOf?_eq_some.1 hq)
            obtain ⟨rewired, hrewire, -⟩ := exists_rewire hchild hnew
            rw [hrewire] at hcorrupt
            cases hcorrupt
    · simp only [requireExpr, if_pos hold, if_neg hnew, bind, Except.bind] at hcorrupt
      cases hcorrupt
  · simp only [requireExpr, if_neg hold, bind, Except.bind] at hcorrupt
    cases hcorrupt

/-- A replacement, successful or not, leaves the arena anchored. -/
theorem anchored_replaceExpr (h : t.arena.Anchored) (old new : ExprId) :
    ((t.replaceExpr old new).toOption.getD t).arena.Anchored := by
  cases hreplace : t.replaceExpr old new with
  | error error => exact h
  | ok replaced =>
    rcases replaceExpr_cases hreplace with rfl | ⟨p, hp, hnew, hrewire⟩
    · exact h
    · obtain ⟨rewired, hrewire', hrewires⟩ :=
        exists_rewire (h.child_of_parent _ p hp) hnew.contains
      cases hrewire.symm.trans hrewire'
      exact h.rewires hrewires hnew.contains

/-- Wrapping an expression ends, with an anchored arena. The parent still holds the expression in
a slot when the builder is done. -/
theorem exists_wrapExpr (h : t.arena.Anchored) (build : ExprId → Construction)
    (within : ∀ p, t.arena.Parent (.expr old) p → (build old).Within (t.free old)) :
    ∃ t' outcome, t.wrapExpr old (Construction.builder build) = .ok (t', outcome) ∧
      t'.arena.Anchored ∧ ∀ c p, outcome ≠ .error (.corruptParent c p) := by
  by_cases hold : t.contains (.expr old)
  · rw [wrapExpr, if_pos hold]
    cases hp : t.arena.parentOf? old with
    | none => exact ⟨t, _, rfl, h, fun _ _ hcorrupt => by cases hcorrupt⟩
    | some p =>
      have hparent : t.arena.Parent (.expr old) p := Arena.parentOf?_eq_some.1 hp
      have hfree : (t.free old).arena.Child p (.expr old) := by
        rw [Arena.Child, free, Arena.children_setExprParent]
        exact h.child_of_parent _ p hparent
      obtain ⟨built, new, hrun, hbuilt, hkeeps⟩ :=
        (build old).exists_run (within p hparent) (h.free hold)
      have hbuild : Construction.builder build (t.free old) old = .ok (built, new) := hrun
      rw [free] at hbuild
      simp only [hbuild, bind, Except.bind]
      by_cases hnew : built.contains (.expr new)
      · obtain ⟨rewired, hrewire, hrewires⟩ := exists_rewire (hkeeps _ _ hfree) hnew
        simp only [requireExpr, if_pos hnew, hrewire]
        exact ⟨rewired, _, rfl, hbuilt.rewires hrewires hnew,
          fun _ _ hcorrupt => by cases hcorrupt⟩
      · simp only [requireExpr, if_neg hnew]
        exact ⟨built, _, rfl, hbuilt, fun _ _ hcorrupt => by cases hcorrupt⟩
  · rw [wrapExpr, if_neg hold]
    exact ⟨t, _, rfl, h, fun _ _ hcorrupt => by cases hcorrupt⟩

/-! ## Histories -/

/-- A call of a constructor on any nodes of the tree, of `replaceExpr` on any handles, or of
`wrapExpr` with a builder made of constructors. -/
inductive Call (t t' : Tree) : Prop
  | expr (kind : Expr ExprId) {e : ExprId} (result : t.addExpr kind = .ok (t', e))
      (contains : ∀ x ∈ kind.slots, t.contains (.expr x))
  | stmt (kind : Stmt ExprId StmtId) {s : StmtId} (result : t.addStmt kind = .ok (t', s))
      (contains_exprs : ∀ x ∈ kind.exprSlots, t.contains (.expr x))
      (contains_stmts : ∀ x ∈ kind.stmtSlots, t.contains (.stmt x))
  /-- A replacement that fails leaves the tree as it is. -/
  | replace (old new : ExprId) (result : t' = (t.replaceExpr old new).toOption.getD t)
  /-- The builder is called only if there is a place to wrap. -/
  | wrap (old : ExprId) (build : ExprId → Construction) {outcome : Except EditError ExprId}
      (within : ∀ p, t.arena.Parent (.expr old) p → (build old).Within (t.free old))
      (result : t.wrapExpr old (Construction.builder build) = .ok (t', outcome))

/-- The tree is made from the empty one by such calls, whatever nodes are shared. -/
def Assembled (t : Tree) : Prop := ReflTransGen Call .empty t

theorem Call.anchored (h : t.Call t') (ht : t.arena.Anchored) : t'.arena.Anchored := by
  cases h with
  | expr kind result contains =>
    obtain ⟨t'', ht'', hadds⟩ := exists_addExpr contains
    cases result.symm.trans ht''
    exact ht.adds hadds (List.forall_mem_map.2 contains)
  | stmt kind result contains_exprs contains_stmts =>
    obtain ⟨t'', ht'', hadds⟩ := exists_addStmt contains_exprs contains_stmts
    cases result.symm.trans ht''
    exact ht.adds hadds (List.forall_mem_append.2
      ⟨List.forall_mem_map.2 contains_exprs, List.forall_mem_map.2 contains_stmts⟩)
  | replace old new result => exact result ▸ anchored_replaceExpr ht old new
  | wrap old build within result =>
    obtain ⟨t'', outcome, hwrap, hanchored, -⟩ := exists_wrapExpr ht build within
    cases result.symm.trans hwrap
    exact hanchored

theorem Assembled.anchored (h : t.Assembled) : t.arena.Anchored := by
  induction h with
  | refl => exact .empty
  | tail _ hcall ih => exact hcall.anchored ih

/-- In every tree that is made from the empty one by constructors on any nodes and by edits, stored
handles name nodes, and the recorded parent of a node holds it in a slot. So no edit meets a
corrupt parent, and no operation on nodes of the tree fails for want of a node. -/
theorem anchored_of_assembled (h : t.Assembled) :
    (∀ p c, t.arena.Child p c → t.contains c) ∧
      (∀ c p, t.arena.Parent c p → t.contains p ∧ t.arena.Child p c) ∧
      (∀ old new c p, t.replaceExpr old new ≠ .error (.corruptParent c p)) ∧
      (∀ old build, (∀ p, t.arena.Parent (.expr old) p → (build old).Within (t.free old)) →
        ∃ t' outcome, t.wrapExpr old (Construction.builder build) = .ok (t', outcome) ∧
          ∀ c p, outcome ≠ .error (.corruptParent c p)) ∧
      t.FindsNodes := by
  have hanchored := h.anchored
  refine ⟨hanchored.contains_child, fun c p hp => ?_, fun old new c p => ?_,
    fun old build within => ?_, findsNodes hanchored⟩
  · exact ⟨hanchored.contains_parent hp, hanchored.child_of_parent c p hp⟩
  · exact replaceExpr_ne_corruptParent hanchored c p
  · obtain ⟨t', outcome, hwrap, -, hcorrupt⟩ := exists_wrapExpr hanchored build within
    exact ⟨t', outcome, hwrap, hcorrupt⟩

/-- The statement `x + x; x`, in which all three `x` are one node; then the last `x` is wrapped into
another sum of the same node with itself. -/
theorem anchored_shared_sum : ∃ t, Assembled t ∧
    t.arena.slots = [.expr ⟨0⟩, .expr ⟨0⟩, .expr ⟨0⟩, .expr ⟨0⟩, .expr ⟨1⟩, .expr ⟨2⟩] ∧
    (∀ c p, t.arena.Parent c p → t.contains p ∧ t.arena.Child p c) ∧ t.FindsNodes := by
  have hx : Call .empty { arena := { exprs := #[⟨.identifier "x", none⟩] } } :=
    .expr (.identifier "x") rfl (by decide)
  have hsum : Call { arena := { exprs := #[⟨.identifier "x", none⟩] } } { arena := { exprs :=
      #[⟨.identifier "x", some (.expr ⟨1⟩)⟩, ⟨.binary ⟨0⟩ .add ⟨0⟩, none⟩] } } :=
    .expr (.binary ⟨0⟩ .add ⟨0⟩) rfl (by decide)
  have hstmt : Call { arena := { exprs :=
      #[⟨.identifier "x", some (.expr ⟨1⟩)⟩, ⟨.binary ⟨0⟩ .add ⟨0⟩, none⟩] } } { arena := {
      exprs := #[⟨.identifier "x", some (.stmt ⟨0⟩)⟩,
        ⟨.binary ⟨0⟩ .add ⟨0⟩, some (.stmt ⟨0⟩)⟩],
      stmts := #[⟨.expressions [⟨1⟩, ⟨0⟩], none, false⟩] } } :=
    .stmt (.expressions [⟨1⟩, ⟨0⟩]) rfl (by decide) (by decide)
  have hwrapped : Call { arena := {
      exprs := #[⟨.identifier "x", some (.stmt ⟨0⟩)⟩,
        ⟨.binary ⟨0⟩ .add ⟨0⟩, some (.stmt ⟨0⟩)⟩],
      stmts := #[⟨.expressions [⟨1⟩, ⟨0⟩], none, false⟩] } } { arena := {
      exprs := #[⟨.identifier "x", some (.expr ⟨2⟩)⟩, ⟨.binary ⟨0⟩ .add ⟨0⟩, some (.stmt ⟨0⟩)⟩,
        ⟨.binary ⟨0⟩ .add ⟨0⟩, some (.stmt ⟨0⟩)⟩],
      stmts := #[⟨.expressions [⟨1⟩, ⟨2⟩], none, false⟩] } } :=
    .wrap ⟨0⟩ (fun x => .expr (.binary x .add x) fun sum => .done sum)
      (fun _ _ => ⟨by decide, fun _ _ _ => trivial⟩) rfl
  have hassembled : Assembled _ := (((ReflTransGen.single hx).tail hsum).tail hstmt).tail hwrapped
  obtain ⟨-, hparent, -, -, hfinds⟩ := anchored_of_assembled hassembled
  exact ⟨_, hassembled, rfl, hparent, hfinds⟩

end Tree
end ExprTyping
