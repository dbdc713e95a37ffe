import ExprTyping.Proofs.Arena.Check
import ExprTyping.Proofs.Arena.Preorder
import ExprTyping.Proofs.Edit.Acyclicity

/-!
# Edits splice the traversal

An edit that succeeds changes the sequence of the nodes below a root in one place: the block below
the old expression gives way to the block below the new one.

* `Arena.Splices` says what such an edit does to the slots: one of them holds the new expression
  instead of the old one, and no other slot of the nodes that were there has changed.
* Away from this slot the sequence stays the same (`Splices.preorder_eq`), and on the way down to it
  the blocks before and after it stay the same at each level (`Splices.spliced`).
* `Tree.Grafts` is the edit: a replacement that puts no expression below itself, or a wrapping whose
  builder makes a fresh expression (`Tree.BuildsFresh`). Both splice a well-formed tree, and the
  result is well-formed (`Tree.Grafts.splices`).

Main statement: `Tree.grafts_splice_nodes`.
-/

namespace ExprTyping

open Relation

namespace Arena

variable {a b : Arena} {n p c c' : NodeId} {old new : ExprId}

/-! ## One slot -/

/-- The slot of `p` that held `old` holds `new`, and no other slot of a node of `a` has changed. -/
structure Splices (a b : Arena) (p : NodeId) (old new : ExprId) : Prop where
  contains : ∀ n, a.contains n → b.contains n
  slot : ∃ before after, a.children p = .ok (before ++ .expr old :: after) ∧
    b.children p = .ok (before ++ .expr new :: after)
  frame : ∀ n, a.contains n → n ≠ p → b.children n = a.children n

/-- The sequences from `n` in `a` and from `m` in `b` differ in one block, which is the sequence
from `c` in `a` and the sequence from `c'` in `b`. -/
def Spliced (a b : Arena) (n m c c' : NodeId) : Prop :=
  ∃ before after, a.preorder n = before ++ a.preorder c ++ after ∧
    b.preorder m = before ++ b.preorder c' ++ after

/-- If the children around a slot keep their sequences, what differs stands in the slot. -/
theorem Spliced.of_child {left right : List NodeId} {d d' : NodeId} (wf : a.WellFormed)
    (wf' : b.WellFormed) (hcs : a.children n = .ok (left ++ d :: right))
    (hcs' : b.children n = .ok (left ++ d' :: right))
    (same : ∀ x ∈ left ++ right, b.preorder x = a.preorder x) (h : a.Spliced b d d' c c') :
    a.Spliced b n n c c' := by
  obtain ⟨before, after, heq, heq'⟩ := h
  have hleft : left.flatMap b.preorder = left.flatMap a.preorder :=
    List.flatMap_congr fun x hx => same x (List.mem_append_left _ hx)
  have hright : right.flatMap b.preorder = right.flatMap a.preorder :=
    List.flatMap_congr fun x hx => same x (List.mem_append_right _ hx)
  refine ⟨n :: left.flatMap a.preorder ++ before, after ++ right.flatMap a.preorder, ?_, ?_⟩
  · rw [wf.preorder_split hcs, heq]
    simp
  · rw [wf'.preorder_split hcs', heq', hleft, hright]
    simp

namespace Splices

variable (h : a.Splices b p old new)
include h

theorem child_old : a.Child p (.expr old) := by
  obtain ⟨before, after, hcs, -⟩ := h.slot
  exact ⟨_, hcs, by simp⟩

theorem child_new : b.Child p (.expr new) := by
  obtain ⟨before, after, -, hcs'⟩ := h.slot
  exact ⟨_, hcs', by simp⟩

variable (wf : a.WellFormed) (wf' : b.WellFormed)
include wf

/-- From a node without a parent, the way down to `old` leads through the slot. -/
theorem below_old_iff (hn : a.Detached n) : a.Below n (.expr old) ↔ a.Below n p := by
  refine ⟨fun hbelow => ?_, fun hbelow => ReflTransGen.tail hbelow h.child_old⟩
  have hparent := (wf.child_iff_parent p _).1 h.child_old
  rcases ReflTransGen.cases_tail hbelow with heq | ⟨q, hnq, hq⟩
  · exact absurd (heq ▸ hparent) (hn.not_parent p)
  · exact ((wf.child_iff_parent q _).1 hq).unique hparent ▸ hnq

include wf'

theorem preorder_eq (hn : a.contains n) (outside : ¬ a.Below n p) :
    b.preorder n = a.preorder n := by
  refine wf.preorder_congr wf' hn fun m hm => h.frame m (wf.contains_of_below hn hm) ?_
  rintro rfl
  exact outside hm

/-- On the way up from the slot, the blocks around it are the same in both arenas at each level. -/
theorem spliced (hn : a.Below n p) : a.Spliced b n n (.expr old) (.expr new) := by
  induction hn using ReflTransGen.head_induction_on with
  | refl =>
    obtain ⟨left, right, hcs, hcs'⟩ := h.slot
    refine .of_child wf wf' hcs hcs' (fun x hx => ?_) ⟨[], [], by simp⟩
    have hchild : a.Child p x := ⟨_, hcs, by grind⟩
    exact h.preorder_eq wf wf' (wf.contains_child p x hchild) (wf.not_below_of_child hchild)
  | @head n c hchild hcp ih =>
    obtain ⟨cs, hcs, hc⟩ := hchild
    obtain ⟨left, right, rfl⟩ := List.append_of_mem hc
    have hne : n ≠ p := by
      rintro rfl
      exact wf.not_below_of_child ⟨_, hcs, hc⟩ hcp
    have hcs' := (h.frame n (contains_of_children hcs) hne).trans hcs
    refine .of_child wf wf' hcs hcs' (fun x hx => ?_) ih
    have hx' : a.Child n x := ⟨_, hcs, by grind⟩
    -- the slot is below one child only
    refine h.preorder_eq wf wf' (wf.contains_child n x hx') fun hxp => ?_
    obtain rfl := wf.eq_of_below hx' ⟨_, hcs, hc⟩ hxp hcp
    have hnodup := List.nodup_middle.1 (wf.nodup_children n _ hcs)
    exact (List.nodup_cons.1 hnodup).1 hx

end Splices

/-- Rewiring an arena in which the nodes of `a` still have their slots splices `a`. -/
theorem Rewires.splices {built : Arena} (hb : built.Rewires b p old new) (hp : a.contains p)
    (contains : ∀ n, a.contains n → built.contains n)
    (children : ∀ n, a.contains n → built.children n = a.children n) : a.Splices b p old new where
  contains n hn := (hb.contains n).trans (contains n hn)
  slot := by
    obtain ⟨cs, hcs, hold, hcs'⟩ := hb.children_parent
    obtain ⟨before, after, hsplit, -, hreplaced⟩ :=
      exists_replace_eq hold (.expr new)
    rw [children p hp, hsplit] at hcs
    rw [hreplaced] at hcs'
    exact ⟨before, after, hcs, hcs'⟩
  frame n hn hne := (hb.children_frame n hne).trans (children n hn)

/-- The way up from a node leads to nodes that it is below of. -/
theorem Anchored.below {m : NodeId} (h : a.Anchored) (hup : ReflTransGen a.Parent n m) :
    a.Below m n := by
  have hdown : ReflTransGen (Function.swap a.Child) n m :=
    ReflTransGen.mono (fun c p hp => h.child_of_parent c p hp) n m hup
  exact reflTransGen_swap.1 hdown

end Arena

namespace Tree

variable {t t' : Tree} {old new : ExprId}

/-! ## Edits -/

/-- Called to wrap `old`, the builder only makes nodes, and it gives one without a parent. All that
is below that one is new or is `old` with what is below it. -/
def BuildsFresh (t : Tree) (old : ExprId) (build : Builder) : Prop :=
  ∃ built new, build (t.free old) old = .ok (built, new) ∧
    ReflTransGen Makes (t.free old) built ∧ built.arena.Detached (.expr new) ∧
    ∀ n, built.arena.Below (.expr new) n → t.contains n → t.arena.Below (.expr old) n

/-- An edit that puts `new` in the place of `old`: a replacement that does not put it below itself,
or a wrapping with a fresh expression. -/
inductive Grafts (t : Tree) (old new : ExprId) (t' : Tree) : Prop
  | replace (apart : ¬ t.Swallows old new) (result : t.replaceExpr old new = .ok t')
  | wrap (build : Builder) (fresh : t.BuildsFresh old build)
      (result : t.wrapExpr old build = .ok (t', .ok new))

/-- Constructors keep the slots of the nodes that are there. -/
theorem children_of_makes (h : ReflTransGen Makes t t') {n : NodeId} (hn : t.contains n) :
    t'.contains n ∧ t'.arena.children n = t.arena.children n := by
  induction h with
  | refl => exact ⟨hn, rfl⟩
  | tail _ hmakes ih =>
    obtain ⟨m, cs, hadds, -⟩ := hmakes.exists_adds
    refine ⟨hmakes.extends.contains n ih.1, (hadds.children_old n ?_).trans ih.2⟩
    rintro rfl
    exact absurd (hadds.fresh.symm.trans ih.1) (by simp)

/-- Wrapping a node with a fresh expression splices the tree. -/
theorem splices_of_wrapExpr {build : Builder} (wf : t.arena.WellFormed)
    (fresh : t.BuildsFresh old build) (h : t.wrapExpr old build = .ok (t', .ok new)) :
    t'.arena.WellFormed ∧ ∃ p, t.arena.Splices t'.arena p old new := by
  obtain ⟨p, built, hp, hbuild, hrewire⟩ := wrapExpr_ok h
  obtain ⟨built', new', hbuild', hmakes, hnew, hfresh⟩ := fresh
  cases hbuild.symm.trans hbuild'
  have hold : t.contains (.expr old) := Arena.contains_of_parent hp
  have hkept : ∀ n, t.contains n → built.contains n ∧
      built.arena.children n = t.arena.children n := by
    intro n hn
    have hfree : (t.free old).contains n := (t.arena.contains_setExprParent old none n).trans hn
    obtain ⟨hcontains, hchildren⟩ := children_of_makes hmakes hfree
    exact ⟨hcontains, hchildren.trans (t.arena.children_setExprParent old none n)⟩
  have hloose : built.arena.ForestBut (some (p, .expr old)) :=
    forestBut_of_makes hmakes (wf.forest.free hp)
  obtain ⟨hanchored, hacyclic⟩ := anchored_and_acyclic_of_makes hmakes
    ⟨wf.anchored.free hold, Arena.Acyclic.free wf.acyclic hold⟩
  obtain ⟨rewired, hrewire', hrewires⟩ := exists_rewire hloose.child hnew.contains
  cases hrewire.symm.trans hrewire'
  have hpcontains : t.contains p := wf.contains_parent _ p hp
  -- were the parent below the new expression, it would be below the old one
  have hpath : ¬ ReflTransGen built.arena.Parent p (.expr new) := fun hup =>
    wf.not_below_of_child ((wf.child_iff_parent p _).2 hp)
      (hfresh p (hanchored.below hup) hpcontains)
  refine ⟨(hloose.rewires hrewires hnew).wellFormed (hanchored.rewires hrewires hnew.contains)
    (hrewires.acyclic hacyclic hnew hpath), p, ?_⟩
  exact hrewires.splices hpcontains (fun n hn => (hkept n hn).1) fun n hn => (hkept n hn).2

/-- An edit changes nothing or splices the tree. -/
theorem Grafts.splices (h : t.Grafts old new t') (wf : t.arena.WellFormed) :
    t'.arena.WellFormed ∧
      (old = new ∧ t' = t ∨ ∃ p, t.arena.Splices t'.arena p old new) := by
  cases h with
  | replace apart result =>
    have wf' : t'.arena.WellFormed :=
      Revises.wellFormed (.replace old new (fun _ => apart) (by rw [result]; rfl)) wf
    refine ⟨wf', ?_⟩
    by_cases heq : old = new
    · subst heq
      exact .inl ⟨rfl, eq_of_replaceExpr_self result⟩
    · obtain ⟨p, hp, hnew, hrewire⟩ := replaceExpr_of_ne heq result
      obtain ⟨rewired, hrewire', hrewires⟩ :=
        exists_rewire ((wf.child_iff_parent p _).2 hp) hnew.contains
      cases hrewire.symm.trans hrewire'
      exact .inr ⟨p, hrewires.splices (wf.contains_parent _ p hp) (fun _ => id) fun _ _ => rfl⟩
  | wrap build fresh result =>
    obtain ⟨wf', hsplices⟩ := splices_of_wrapExpr wf fresh result
    exact ⟨wf', .inr hsplices⟩

/-- An edit keeps a tree well-formed. In the sequence of the nodes below a node without a parent,
the block below the old expression gives way to the block below the new one; without that block, the
sequence stays the same. -/
theorem grafts_splice_nodes (wf : t.arena.WellFormed) (h : t.Grafts old new t') :
    t'.arena.WellFormed ∧ ∀ r, t.arena.Detached r →
      (t.arena.Below r (.expr old) → ∃ before block after block',
        t.arena.nodes (.expr old) = .ok block ∧
        t'.arena.nodes (.expr new) = .ok block' ∧
        t.arena.nodes r = .ok (before ++ block ++ after) ∧
        t'.arena.nodes r = .ok (before ++ block' ++ after)) ∧
      (¬ t.arena.Below r (.expr old) → ∃ l,
        t.arena.nodes r = .ok l ∧ t'.arena.nodes r = .ok l) := by
  obtain ⟨wf', ⟨rfl, rfl⟩ | ⟨p, hsplices⟩⟩ := h.splices wf
  · refine ⟨wf, fun r hr => ⟨fun hbelow => ?_, fun _ => ?_⟩⟩
    · have hnodes := wf.nodes_eq hr.contains
      have hold := wf.nodes_eq (wf.contains_of_below hr.contains hbelow)
      obtain ⟨before, after, hsplit⟩ := wf.exists_block hbelow
      rw [hsplit] at hnodes
      exact ⟨before, _, after, _, hold, hold, hnodes, hnodes⟩
    · exact ⟨_, wf.nodes_eq hr.contains, wf.nodes_eq hr.contains⟩
  · refine ⟨wf', fun r hr => ?_⟩
    rw [hsplices.below_old_iff wf hr]
    have hnodes := wf.nodes_eq hr.contains
    have hnodes' := wf'.nodes_eq (hsplices.contains r hr.contains)
    refine ⟨fun hbelow => ?_, fun hbelow => ?_⟩
    · obtain ⟨before, after, hsplit, hsplit'⟩ := hsplices.spliced wf wf' hbelow
      rw [hsplit] at hnodes
      rw [hsplit'] at hnodes'
      exact ⟨before, _, after, _, wf.nodes_eq (wf.contains_child p _ hsplices.child_old),
        wf'.nodes_eq (wf'.contains_child p _ hsplices.child_new), hnodes, hnodes'⟩
    · rw [hsplices.preorder_eq wf wf' hr.contains hbelow] at hnodes'
      exact ⟨_, hnodes, hnodes'⟩

/-- `x + y` as a statement, and a `z` without a place. -/
def sumAndSpare : Tree where
  arena := {
    exprs := #[⟨.identifier "x", some (.expr ⟨2⟩)⟩, ⟨.identifier "y", some (.expr ⟨2⟩)⟩,
      ⟨.binary ⟨0⟩ .add ⟨1⟩, some (.stmt ⟨0⟩)⟩, ⟨.identifier "z", none⟩]
    stmts := #[⟨.expressions [⟨2⟩], none, false⟩] }

/-- In `x + y`, `x` is put into parentheses, and then `z` takes the place of `y`. -/
theorem grafts_splice_nodes_sum :
    ∃ t t', sumAndSpare.Grafts ⟨0⟩ ⟨4⟩ t ∧ t.Grafts ⟨1⟩ ⟨3⟩ t' ∧ t'.arena.WellFormed ∧
      sumAndSpare.arena.nodes (.stmt ⟨0⟩) =
        .ok [.stmt ⟨0⟩, .expr ⟨2⟩, .expr ⟨0⟩, .expr ⟨1⟩] ∧
      t'.arena.nodes (.stmt ⟨0⟩) =
        .ok [.stmt ⟨0⟩, .expr ⟨2⟩, .expr ⟨4⟩, .expr ⟨0⟩, .expr ⟨3⟩] ∧
      t'.arena.nodes (.expr ⟨1⟩) = .ok [.expr ⟨1⟩] := by
  have wf : sumAndSpare.arena.WellFormed := Arena.wellFormed_of_check (by decide)
  obtain ⟨t, hwrap, hrun⟩ : ∃ t, sumAndSpare.Grafts ⟨0⟩ ⟨4⟩ t ∧
      sumAndSpare.wrapExpr ⟨0⟩ (fun t x => t.addExpr (.parens x)) = .ok (t, .ok ⟨4⟩) := by
    refine ⟨_, .wrap (fun t x => t.addExpr (.parens x)) ⟨_, _, rfl, ?_, rfl, ?_⟩ rfl, rfl⟩
    · exact .single (.expr (.parens ⟨0⟩) rfl (by decide) (by decide))
    · intro n hn hold
      rcases hn.eq_or_child with rfl | ⟨c, ⟨cs, hcs, hc⟩, hcn⟩
      · cases hold
      · cases hcs
        obtain rfl := List.mem_singleton.1 hc
        rw [hcn.eq_of_leaf rfl]
        exact .refl _
  obtain ⟨t', hreplace, hnodes, hold⟩ : ∃ t', t.Grafts ⟨1⟩ ⟨3⟩ t' ∧
      t'.arena.nodes (.stmt ⟨0⟩) =
        .ok [.stmt ⟨0⟩, .expr ⟨2⟩, .expr ⟨4⟩, .expr ⟨0⟩, .expr ⟨3⟩] ∧
      t'.arena.nodes (.expr ⟨1⟩) = .ok [.expr ⟨1⟩] := by
    cases hrun
    refine ⟨_, .replace (fun hswallows => ?_) rfl, rfl, rfl⟩
    cases hswallows.2.eq_of_leaf rfl
  obtain ⟨wf₁, -⟩ := grafts_splice_nodes wf hwrap
  obtain ⟨wf₂, -⟩ := grafts_splice_nodes wf₁ hreplace
  exact ⟨t, t', hwrap, hreplace, wf₂, rfl, hnodes, hold⟩

end Tree
end ExprTyping
