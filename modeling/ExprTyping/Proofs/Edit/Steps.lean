import ExprTyping.Proofs.Arena.Changes
import Mathlib.Logic.Relation

/-!
# Building and editing a tree

A tree is built by constructors, each of which makes a node out of nodes that have no parent yet,
and is edited by replacing and wrapping expressions.

* `Tree.Makes` is one constructor, `Tree.Edits` one call of any of these operations.
* A builder that is called to wrap an expression finds it without a parent and goes on with
  constructors (`Tree.Builds`).

What a constructor does to the arena is `Arena.Adds` (`Tree.Makes.exists_adds`). An edit changes
nothing or rewires a slot (`Tree.replaceExpr_cases`, `Tree.wrapExpr_cases`).
-/

namespace ExprTyping

open Relation

theorem bind_eq_ok_iff {ε α β : Type} {x : Except ε α} {f : α → Except ε β} {b : β} :
    (x >>= f) = .ok b ↔ ∃ a, x = .ok a ∧ f a = .ok b := by
  cases x <;> simp [bind, Except.bind]

namespace Tree

/-- A constructor makes a node out of nodes that have no parent and are pairwise distinct. -/
inductive Makes (t t' : Tree) : Prop
  | expr (kind : Expr ExprId) {e : ExprId} (result : t.addExpr kind = .ok (t', e))
      (detached : ∀ x ∈ kind.slots, t.arena.Detached (.expr x)) (distinct : kind.slots.Nodup)
  | stmt (kind : Stmt ExprId StmtId) {s : StmtId} (result : t.addStmt kind = .ok (t', s))
      (exprs_detached : ∀ x ∈ kind.exprSlots, t.arena.Detached (.expr x))
      (stmts_detached : ∀ x ∈ kind.stmtSlots, t.arena.Detached (.stmt x))
      (exprs_distinct : kind.exprSlots.Nodup) (stmts_distinct : kind.stmtSlots.Nodup)

/-- The tree in which an expression has lost its parent. -/
def free (t : Tree) (e : ExprId) : Tree := { t with arena := t.arena.setExprParent e none }

/-- Called to wrap `old`, the builder only makes nodes, and it gives one without a parent. -/
def Builds (t : Tree) (old : ExprId) (build : Builder) : Prop :=
  ∃ built new, build (t.free old) old = .ok (built, new) ∧
    ReflTransGen Makes (t.free old) built ∧ built.arena.Detached (.expr new)

/-- A call of a constructor, of `replaceExpr` or of `wrapExpr`. -/
inductive Edits (t t' : Tree) : Prop
  | make (h : Makes t t')
  /-- A replacement that fails leaves the tree as it is. -/
  | replace (old new : ExprId) (result : t' = (t.replaceExpr old new).toOption.getD t)
  /-- The builder is called only if there is a place to wrap. -/
  | wrap (old : ExprId) (build : Builder) {outcome : Except EditError ExprId}
      (builds : ∀ p, t.arena.Parent (.expr old) p → t.Builds old build)
      (result : t.wrapExpr old build = .ok (t', outcome))

/-- The tree is built from the empty one by constructors and edits. -/
def Reached (t : Tree) : Prop := ReflTransGen Edits .empty t

variable {t t' : Tree} {old new : ExprId}

/-- What a constructor does to the arena. -/
theorem Makes.exists_adds (h : t.Makes t') : ∃ n cs, t.arena.Adds t'.arena n cs ∧
    (∀ c ∈ cs, t.arena.Detached c) ∧ cs.Nodup := by
  cases h with
  | expr kind result detached distinct =>
    obtain ⟨b, hb, hadds⟩ := Arena.exists_addExpr fun x hx => (detached x hx).contains
    rw [addExpr, hb] at result
    cases result
    refine ⟨_, _, hadds, fun c hc => ?_, distinct.map fun _ _ => NodeId.expr.inj⟩
    obtain ⟨x, hx, rfl⟩ := List.mem_map.1 hc
    exact detached x hx
  | stmt kind result exprs_detached stmts_detached exprs_distinct stmts_distinct =>
    obtain ⟨b, hb, hadds⟩ := Arena.exists_addStmt (fun x hx => (exprs_detached x hx).contains)
      fun x hx => (stmts_detached x hx).contains
    rw [addStmt, hb] at result
    cases result
    refine ⟨_, _, hadds, fun c hc => ?_, ?_⟩
    · rcases List.mem_append.1 hc with hc | hc
      · obtain ⟨x, hx, rfl⟩ := List.mem_map.1 hc
        exact exprs_detached x hx
      · obtain ⟨x, hx, rfl⟩ := List.mem_map.1 hc
        exact stmts_detached x hx
    · refine List.nodup_append.2 ⟨exprs_distinct.map fun _ _ => NodeId.expr.inj,
        stmts_distinct.map fun _ _ => NodeId.stmt.inj, fun c hc d hd => ?_⟩
      obtain ⟨x, -, rfl⟩ := List.mem_map.1 hc
      obtain ⟨y, -, rfl⟩ := List.mem_map.1 hd
      exact NodeId.noConfusion

/-! ## Edits -/

theorem contains_of_requireExpr {e : ExprId} {u : Unit} (h : t.requireExpr e = .ok u) :
    t.contains (.expr e) := by
  rw [requireExpr] at h
  split_ifs at h with he
  exact he

/-- If `old` stands in a slot of `p`, another expression can take its place. -/
theorem exists_rewire {p : NodeId} (h : t.arena.Child p (.expr old))
    (hnew : t.contains (.expr new)) :
    ∃ t', t.rewire p old new = .ok t' ∧ t.arena.Rewires t'.arena p old new := by
  obtain ⟨b, hb, hrewires⟩ := Arena.exists_rewire h hnew
  exact ⟨{ t with arena := b }, by rw [rewire, hb]; rfl, hrewires⟩

/-- A replacement by another expression that succeeds rewires the slot. -/
theorem replaceExpr_of_ne (hne : old ≠ new) (h : t.replaceExpr old new = .ok t') :
    ∃ p, t.arena.Parent (.expr old) p ∧ t.arena.Detached (.expr new) ∧
      t.rewire p old new = .ok t' := by
  rw [replaceExpr] at h
  obtain ⟨_, -, h⟩ := bind_eq_ok_iff.1 h
  obtain ⟨_, hnew, h⟩ := bind_eq_ok_iff.1 h
  rw [if_neg hne] at h
  by_cases hattached : (t.arena.parentOf? new).isSome = true
  · simp only [if_pos hattached] at h
    cases hp : t.arena.parentOf? old <;> rw [hp] at h <;> cases h
  · simp only [if_neg hattached] at h
    cases hp : t.arena.parentOf? old with
    | none => rw [hp] at h; cases h
    | some p =>
      rw [hp] at h
      refine ⟨p, Arena.parentOf?_eq_some.1 hp, ?_, h⟩
      exact Arena.detached_of_parentOf?_eq_none (contains_of_requireExpr hnew)
        (Option.not_isSome_iff_eq_none.1 hattached)

/-- A replacement of an expression by itself that succeeds changes nothing. -/
theorem eq_of_replaceExpr_self (h : t.replaceExpr old old = .ok t') : t' = t := by
  rw [replaceExpr] at h
  obtain ⟨_, -, h⟩ := bind_eq_ok_iff.1 h
  obtain ⟨_, -, h⟩ := bind_eq_ok_iff.1 h
  rw [if_pos rfl] at h
  exact (Except.ok.inj h).symm

/-- A replacement that succeeds changes nothing or rewires the slot. -/
theorem replaceExpr_cases (h : t.replaceExpr old new = .ok t') : t' = t ∨
    ∃ p, t.arena.Parent (.expr old) p ∧ t.arena.Detached (.expr new) ∧
      t.rewire p old new = .ok t' := by
  by_cases heq : old = new
  · subst heq
    exact .inl (eq_of_replaceExpr_self h)
  · exact .inr (replaceExpr_of_ne heq h)

/-- Wrapping changes nothing unless there is a place to wrap. There, it rewires the slot after the
builder, or leaves the tree as the builder left it. -/
theorem wrapExpr_cases {build : Builder} {outcome : Except EditError ExprId}
    (h : t.wrapExpr old build = .ok (t', outcome)) : t' = t ∨
    ∃ p built new, t.arena.Parent (.expr old) p ∧ build (t.free old) old = .ok (built, new) ∧
      (built.rewire p old new = .ok t' ∨ t' = built ∧
        (¬ built.contains (.expr new) = true ∨
          ∃ error, built.rewire p old new = .error error)) := by
  rw [wrapExpr] at h
  split at h
  · split at h
    · cases h
      exact .inl rfl
    · rename_i p hp
      obtain ⟨⟨built, new⟩, hbuild, h⟩ := bind_eq_ok_iff.1 h
      refine .inr ⟨p, built, new, Arena.parentOf?_eq_some.1 hp, hbuild, ?_⟩
      dsimp only at h
      split at h
      · rename_i error hmissing
        cases h
        refine .inr ⟨rfl, .inl fun hcontains => ?_⟩
        rw [requireExpr, if_pos hcontains] at hmissing
        cases hmissing
      · split at h
        · rename_i error hrewire
          cases h
          exact .inr ⟨rfl, .inr ⟨error, hrewire⟩⟩
        · rename_i hrewire
          cases h
          exact .inl hrewire
  · cases h
    exact .inl rfl

/-- Wrapping that succeeds rewires the slot after the builder. -/
theorem wrapExpr_ok {build : Builder} (h : t.wrapExpr old build = .ok (t', .ok new)) :
    ∃ p built, t.arena.Parent (.expr old) p ∧ build (t.free old) old = .ok (built, new) ∧
      built.rewire p old new = .ok t' := by
  rw [wrapExpr] at h
  split at h
  · split at h
    · cases h
    · rename_i p hp
      obtain ⟨⟨built, made⟩, hbuild, h⟩ := bind_eq_ok_iff.1 h
      refine ⟨p, built, Arena.parentOf?_eq_some.1 hp, ?_⟩
      dsimp only at h
      split at h
      · cases h
      · split at h
        · cases h
        · rename_i hrewire
          cases h
          exact ⟨hbuild, hrewire⟩
  · cases h

/-! ## What edits keep -/

/-- Nothing is noted on expressions that the tree does not have. -/
def Blank (t : Tree) : Prop := ∀ e, t.contains (.expr e) = false → t.notes.expr e = {}

/-- The tree `t'` has all nodes of `t` and the same notes. -/
structure Extends (t t' : Tree) : Prop where
  notes : t'.notes = t.notes
  contains : ∀ n, t.contains n → t'.contains n

namespace Extends

theorem refl (t : Tree) : t.Extends t := ⟨rfl, fun _ h => h⟩

theorem trans {t'' : Tree} (h : t.Extends t') (h' : t'.Extends t'') : t.Extends t'' :=
  ⟨h'.notes.trans h.notes, fun n hn => h'.contains n (h.contains n hn)⟩

theorem free (t : Tree) (e : ExprId) : t.Extends (t.free e) where
  notes := rfl
  contains n hn := (t.arena.contains_setExprParent e none n).trans hn

theorem blank (h : t.Extends t') (ht : t.Blank) : t'.Blank := by
  intro e he
  rw [h.notes]
  refine ht e (Bool.eq_false_iff.2 fun hcontains => ?_)
  rw [h.contains _ hcontains] at he
  cases he

end Extends

theorem Makes.extends (h : t.Makes t') : t.Extends t' where
  notes := by
    cases h with
    | expr kind result =>
      obtain ⟨_, -, hresult⟩ := bind_eq_ok_iff.1 result
      cases hresult
      rfl
    | stmt kind result =>
      obtain ⟨_, -, hresult⟩ := bind_eq_ok_iff.1 result
      cases hresult
      rfl
  contains n hn := by
    obtain ⟨_, _, hadds, -⟩ := h.exists_adds
    exact (hadds.contains n).trans (by rw [show t.arena.contains n = true from hn, Bool.or_true])

theorem extends_of_rewire {p : NodeId} (h : t.rewire p old new = .ok t') : t.Extends t' := by
  obtain ⟨b, hb, hresult⟩ := bind_eq_ok_iff.1 h
  cases hresult
  exact ⟨rfl, fun n hn => (Arena.contains_of_rewire hb n).trans hn⟩

/-- Edits change no note and take no node away. -/
theorem Edits.extends (h : t.Edits t') : t.Extends t' := by
  cases h with
  | make h => exact h.extends
  | replace old new result =>
    subst result
    cases hreplace : t.replaceExpr old new with
    | error error => exact .refl t
    | ok replaced =>
      rcases replaceExpr_cases hreplace with rfl | ⟨p, -, -, hrewire⟩
      · exact .refl _
      · exact extends_of_rewire hrewire
  | wrap old build builds result =>
    rcases wrapExpr_cases result with rfl | ⟨p, built, new, hp, hbuild, hresult⟩
    · exact .refl t'
    · obtain ⟨built', new', hbuild', hmakes, -⟩ := builds p hp
      cases hbuild.symm.trans hbuild'
      have hbuilt : t.Extends built := by
        refine (Extends.free t old).trans ?_
        clear hbuild hbuild' hresult
        induction hmakes with
        | refl => exact .refl _
        | tail _ hmakes ih => exact ih.trans hmakes.extends
      rcases hresult with hrewire | ⟨rfl, -⟩
      · exact hbuilt.trans (extends_of_rewire hrewire)
      · exact hbuilt

/-- Nothing is noted on an expression before it is made. -/
theorem Reached.blank (h : t.Reached) : t.Blank := by
  induction h with
  | refl => exact fun _ _ => rfl
  | tail _ hedits ih => exact hedits.extends.blank ih

end Tree
end ExprTyping
