import ExprTyping.Proofs.Edit.Sharing
import ExprTyping.Proofs.Visit.Totality

/-!
# Trees without cycles

A constructor adds a node above others and nothing above it, so it closes no cycle. A replacement
adds one link, from the new expression up to the parent of the old one. `Tree.replaceExpr` refuses a
new expression that has a parent, but not one that holds the old expression somewhere below it:
then the new link closes a cycle, and in no other case (`Tree.replaceExpr_acyclic_iff`).

A tree that is built by constructors and by replacements that put no expression below itself
(`Tree.Revised`) is well-formed. So all walks on it end: up, down, and those of a resolver
(`Tree.walks_end`).
-/

namespace ExprTyping

open Relation

/-! ## Cycles of relations -/

section

variable {α : Type} {r r' : α → α → Prop} {u v n x y : α}

/-- A chain that may use a new link `u → v` uses only old links or goes through the new one. -/
theorem transGen_insert (hr : ∀ x y, r' x y → x = u ∧ y = v ∨ r x y) (h : TransGen r' x y) :
    TransGen r x y ∨ ReflTransGen r x u ∧ ReflTransGen r v y := by
  induction h with
  | single hxy =>
    rcases hr _ _ hxy with ⟨rfl, rfl⟩ | hxy
    · exact .inr ⟨.refl, .refl⟩
    · exact .inl (.single hxy)
  | tail _ hyz ih =>
    rcases hr _ _ hyz with ⟨rfl, rfl⟩ | hyz
    · exact .inr ⟨ih.elim TransGen.to_reflTransGen And.left, .refl⟩
    · exact ih.imp (·.tail hyz) fun hvia => ⟨hvia.1, hvia.2.tail hyz⟩

/-- New links to a node with nothing above it only add chains that end there. -/
theorem transGen_top (hr : ∀ x y, r' x y → y = n ∨ r x y) (hn : ∀ y, ¬ r' n y)
    (h : TransGen r' x y) : y = n ∨ TransGen r x y := by
  induction h with
  | single hxy => exact (hr _ _ hxy).imp id .single
  | tail _ hyz ih =>
    rcases hr _ _ hyz with rfl | hold
    · exact .inl rfl
    · rcases ih with rfl | hxy
      · exact absurd hyz (hn _)
      · exact .inr (hxy.tail hold)

end

namespace Arena

variable {a b : Arena} {n p : NodeId} {cs : List NodeId} {old new : ExprId}

/-- No node is above itself. -/
def Acyclic (a : Arena) : Prop := ∀ n, ¬ TransGen a.Parent n n

namespace Acyclic

theorem empty : Acyclic {} := by
  intro n h
  obtain ⟨p, hp, -⟩ := TransGen.head'_iff.1 h
  cases n <;> cases hp

/-- Nothing is above a new node. -/
theorem adds (h : a.Acyclic) (hb : a.Adds b n cs) (hcs : ∀ c ∈ cs, a.Detached c) : b.Acyclic := by
  have htop : ∀ q, ¬ b.Parent n q := Detached.not_parent hb.parent_new
  intro m hm
  have hlinks : ∀ c q, b.Parent c q → q = n ∨ a.Parent c q := fun c q hq =>
    ((hb.parent_iff hcs).1 hq).imp And.left id
  rcases transGen_top hlinks htop hm with rfl | hold
  · obtain ⟨q, hq, -⟩ := TransGen.head'_iff.1 hm
    exact htop q hq
  · exact h m hold

/-- An expression that loses its parent closes no cycle. -/
theorem free (h : a.Acyclic) {e : ExprId} (he : a.contains (.expr e)) :
    (a.setExprParent e none).Acyclic := by
  intro n hn
  refine h n (TransGen.mono (fun c p hp => ?_) n n hn)
  rw [Parent, a.parent_setExprParent he] at hp
  by_cases hc : c = .expr e
  · rw [if_pos hc] at hp
    cases hp
  · rwa [if_neg hc] at hp

end Acyclic

/-- The new link closes no cycle if its end was not above its start. -/
theorem Rewires.acyclic (hb : a.Rewires b p old new) (h : a.Acyclic)
    (hnew : a.Detached (.expr new)) (hpath : ¬ ReflTransGen a.Parent p (.expr new)) :
    b.Acyclic := by
  intro m hm
  have hlinks : ∀ c q, b.Parent c q → c = .expr new ∧ q = p ∨ a.Parent c q := fun c q hq =>
    ((hb.parent_iff hnew).1 hq).imp And.symm And.right
  rcases transGen_insert hlinks hm with hold | ⟨hmnew, hpm⟩
  · exact h m hold
  · exact hpath (hpm.trans hmnew)

/-- The new link closes a cycle exactly if its end was above its start. -/
theorem Rewires.acyclic_iff (hb : a.Rewires b p old new) (h : a.Acyclic)
    (hold : a.Parent (.expr old) p) (hnew : a.Detached (.expr new)) :
    b.Acyclic ↔ ¬ ReflTransGen a.Parent p (.expr new) := by
  refine ⟨fun hacyclic hpath => ?_, hb.acyclic h hnew⟩
  -- the only link that is gone starts at `old`, and the way up from `p` does not meet it
  have hkept : ∀ m, ReflTransGen a.Parent p m → ReflTransGen b.Parent p m := by
    intro m hm
    induction hm with
    | refl => exact .refl
    | tail hpx hxy ih =>
      refine ih.tail ((hb.parent_iff hnew).2 (.inr ⟨fun heq => ?_, hxy⟩))
      obtain ⟨rfl, rfl⟩ := heq
      exact h _ (TransGen.tail' hpx hxy)
  exact hacyclic _ (TransGen.head' hb.parent_new (hkept _ hpath))

/-- A forest with good handles and no cycles is well-formed. -/
theorem Forest.wellFormed (h : a.Forest) (hanchored : a.Anchored) (hacyclic : a.Acyclic) :
    a.WellFormed where
  contains_child := hanchored.contains_child
  contains_parent _ _ hp := hanchored.contains_parent hp
  nodup_children := h.nodup_children
  child_iff_parent := h.child_iff_parent
  acyclic := hacyclic

namespace WellFormed

variable (wf : a.WellFormed)
include wf

theorem forest : a.Forest := ⟨wf.nodup_children, fun p c => by simp [wf.child_iff_parent]⟩

theorem anchored : a.Anchored := ⟨wf.contains_child, fun c p => (wf.child_iff_parent p c).2⟩

/-- The way up from a node ends at one without a parent. -/
theorem exists_top (hn : a.contains n) : ∃ top, ReflTransGen a.Parent n top ∧ a.Detached top := by
  obtain ⟨rank, -, hlt⟩ := wf.exists_rank_parent
  induction hrank : rank n using Nat.strong_induction_on generalizing n with
  | _ k ih =>
    obtain ⟨parent, hparent⟩ := exists_parent hn
    cases parent with
    | none => exact ⟨n, .refl, hparent⟩
    | some p =>
      have hp : a.Parent n p := hparent
      obtain ⟨top, hpath, htop⟩ := ih (rank p) (hrank ▸ hlt n p hp) (wf.contains_parent n p hp) rfl
      exact ⟨top, .head hp hpath, htop⟩

end WellFormed
end Arena

namespace Tree

variable {t t' : Tree} {old new : ExprId}

/-! ## Replacements -/

/-- The expression `old` is below `new`, which is another one: in its place, `new` would be below
itself. -/
def Swallows (t : Tree) (old new : ExprId) : Prop :=
  old ≠ new ∧ t.arena.Below (.expr new) (.expr old)

/-- A replacement closes a cycle exactly if the old expression is below the new one. -/
theorem replaceExpr_acyclic_iff (wf : t.arena.WellFormed) (h : t.replaceExpr old new = .ok t') :
    t'.arena.Acyclic ↔ ¬ t.Swallows old new := by
  by_cases heq : old = new
  · subst heq
    obtain rfl := eq_of_replaceExpr_self h
    exact iff_of_true wf.acyclic fun hswallows => hswallows.1 rfl
  · obtain ⟨p, hp, hnew, hrewire⟩ := replaceExpr_of_ne heq h
    obtain ⟨rewired, hrewire', hrewires⟩ :=
      exists_rewire ((wf.child_iff_parent p _).2 hp) hnew.contains
    cases hrewire.symm.trans hrewire'
    have hne : (.expr old : NodeId) ≠ .expr new := fun h => heq (NodeId.expr.inj h)
    -- the first step on the way up from `old` leads to `p`
    have hpath : ReflTransGen t.arena.Parent (.expr old) (.expr new) ↔
        ReflTransGen t.arena.Parent p (.expr new) := by
      refine ⟨fun hup => ?_, .head hp⟩
      rcases ReflTransGen.cases_head hup with hself | ⟨q, hq, hqnew⟩
      · exact absurd hself hne
      · exact hq.unique hp ▸ hqnew
    rw [hrewires.acyclic_iff wf.acyclic hp hnew, Swallows, wf.below_iff, hpath]
    simp [heq]

/-! ## Histories -/

/-- A call of a constructor, or of `replaceExpr` where that does not put an expression below
itself. -/
inductive Revises (t t' : Tree) : Prop
  | make (h : Makes t t')
  /-- A replacement that fails leaves the tree as it is. -/
  | replace (old new : ExprId) (apart : t.arena.Detached (.expr new) → ¬ t.Swallows old new)
      (result : t' = (t.replaceExpr old new).toOption.getD t)

/-- The tree is built from the empty one by such calls. -/
def Revised (t : Tree) : Prop := ReflTransGen Revises .empty t

theorem Makes.call (h : t.Makes t') : t.Call t' := by
  cases h with
  | expr kind result detached => exact .expr kind result fun x hx => (detached x hx).contains
  | stmt kind result exprs_detached stmts_detached =>
    exact .stmt kind result (fun x hx => (exprs_detached x hx).contains)
      fun x hx => (stmts_detached x hx).contains

/-- Constructors, one after another, keep an arena anchored and without cycles. -/
theorem anchored_and_acyclic_of_makes (h : ReflTransGen Makes t t')
    (ht : t.arena.Anchored ∧ t.arena.Acyclic) : t'.arena.Anchored ∧ t'.arena.Acyclic := by
  induction h with
  | refl => exact ht
  | tail _ hmakes ih =>
    obtain ⟨n, cs, hadds, hdetached, -⟩ := hmakes.exists_adds
    exact ⟨hmakes.call.anchored ih.1, ih.2.adds hadds hdetached⟩

theorem Revises.edits (h : t.Revises t') : t.Edits t' := by
  cases h with
  | make h => exact .make h
  | replace old new _ result => exact .replace old new result

theorem Revises.call (h : t.Revises t') : t.Call t' := by
  cases h with
  | make h => exact h.call
  | replace old new _ result => exact .replace old new result

theorem Revises.acyclic (h : t.Revises t') (wf : t.arena.WellFormed) : t'.arena.Acyclic := by
  cases h with
  | make h =>
    obtain ⟨n, cs, hadds, hdetached, -⟩ := h.exists_adds
    exact Arena.Acyclic.adds wf.acyclic hadds hdetached
  | replace old new apart result =>
    subst result
    cases hreplace : t.replaceExpr old new with
    | error error => exact wf.acyclic
    | ok replaced =>
      refine (replaceExpr_acyclic_iff wf hreplace).2 fun hswallows => ?_
      obtain ⟨p, -, hnew, -⟩ := replaceExpr_of_ne hswallows.1 hreplace
      exact apart hnew hswallows

/-- Such a call keeps a tree well-formed. -/
theorem Revises.wellFormed (h : t.Revises t') (wf : t.arena.WellFormed) : t'.arena.WellFormed :=
  (h.edits.forest wf.forest).wellFormed (h.call.anchored wf.anchored) (h.acyclic wf)

theorem Revised.wellFormed (h : t.Revised) : t.arena.WellFormed := by
  induction h with
  | refl => exact Arena.Forest.wellFormed .empty .empty .empty
  | tail _ hrevises ih => exact hrevises.wellFormed ih

/-- In a tree that is built by constructors and by replacements that put no expression below
itself, every way up ends at a node without a parent, every way down ends, names and scopes are
found or not, the nodes below a node can be listed, and a resolver gives a result for every node.
The next replacement closes a cycle exactly if it puts an expression below itself. -/
theorem walks_end (h : t.Revised) :
    (∀ n, t.contains n → ∃ top, ReflTransGen t.arena.Parent n top ∧ t.arena.Detached top) ∧
      (WellFounded fun c p => t.arena.Child p c) ∧
      (∀ n, t.contains n → (∃ s, t.arena.nearestScope n = .ok s) ∧
        (∀ name, ∃ d, t.definitionNamed? n name = .ok d) ∧ ∃ l, t.arena.nodes n = .ok l) ∧
      (∀ (r : Resolver) root, t.contains (.stmt root) →
        ∃ t' r', r.resolveTypes t root = .ok (t', r')) ∧
      (∀ (r : Resolver) e, t.contains (.expr e) →
        ∃ type t' r', r.resolveType t e = .ok (type, t', r')) ∧
      ∀ old new t', t.replaceExpr old new = .ok t' →
        ((∃ n, TransGen t'.arena.Parent n n) ↔ t.Swallows old new) := by
  have wf := h.wellFormed
  refine ⟨fun n hn => wf.exists_top hn, wf.wellFounded_child, fun n hn => ⟨?_, fun name => ?_, ?_⟩,
    fun r root hroot => r.exists_resolveTypes wf hroot, fun r e he => r.exists_resolveType wf he,
    fun old new t' hreplace => ?_⟩
  · exact ⟨_, wf.firstUpward_owners some hn⟩
  · exact ⟨_, wf.firstUpward_owners (fun s => (t.notes.scope s).find? name) hn⟩
  · obtain ⟨l, hl, -⟩ := wf.exists_nodes hn
    exact ⟨l, hl⟩
  · rw [← not_iff_not, ← replaceExpr_acyclic_iff wf hreplace, not_exists]
    rfl

/-- `x` as a statement; then `y` takes the place of `x`, and a second attempt at the same
replacement fails. -/
theorem walks_end_replaced : ∃ t, Revised t ∧ t.contains (.expr ⟨1⟩) ∧
    (∃ top, ReflTransGen t.arena.Parent (.expr ⟨1⟩) top ∧ t.arena.Detached top) ∧
    (WellFounded fun c p => t.arena.Child p c) ∧
    ∀ r : Resolver, ∃ t' r', r.resolveTypes t ⟨0⟩ = .ok (t', r') := by
  have hx : Revises .empty { arena := { exprs := #[⟨.identifier "x", none⟩] } } :=
    .make (.expr (.identifier "x") rfl (by decide) (by decide))
  have hstmt : Revises { arena := { exprs := #[⟨.identifier "x", none⟩] } }
      (singleStatement ⟨0⟩ #[⟨.identifier "x", some (.stmt ⟨0⟩)⟩]) :=
    .make (.stmt (.expressions [⟨0⟩]) rfl (by decide) (by decide) (by decide) (by decide))
  have hy : Revises (singleStatement ⟨0⟩ #[⟨.identifier "x", some (.stmt ⟨0⟩)⟩])
      (singleStatement ⟨0⟩
        #[⟨.identifier "x", some (.stmt ⟨0⟩)⟩, ⟨.identifier "y", none⟩]) :=
    .make (.expr (.identifier "y") rfl (by decide) (by decide))
  have hreplaced : Revises
      (singleStatement ⟨0⟩ #[⟨.identifier "x", some (.stmt ⟨0⟩)⟩, ⟨.identifier "y", none⟩])
      (singleStatement ⟨1⟩ #[⟨.identifier "x", none⟩, ⟨.identifier "y", some (.stmt ⟨0⟩)⟩]) := by
    refine .replace ⟨0⟩ ⟨1⟩ (fun _ hswallows => ?_) rfl
    -- nothing but `y` is below `y`
    cases hswallows.2.eq_of_leaf rfl
  have hfailed : Revises
      (singleStatement ⟨1⟩ #[⟨.identifier "x", none⟩, ⟨.identifier "y", some (.stmt ⟨0⟩)⟩])
      (singleStatement ⟨1⟩ #[⟨.identifier "x", none⟩, ⟨.identifier "y", some (.stmt ⟨0⟩)⟩]) :=
    .replace ⟨0⟩ ⟨1⟩ (fun hdetached => by cases hdetached) rfl
  have hrevised : Revised _ :=
    ((((ReflTransGen.single hx).tail hstmt).tail hy).tail hreplaced).tail hfailed
  obtain ⟨hup, hdown, -, hresolve, -⟩ := walks_end hrevised
  exact ⟨_, hrevised, rfl, hup _ rfl, hdown, fun r => hresolve r ⟨0⟩ rfl⟩

/-- The detached `(x)` can take the place of the `x` in it. Then it is its own parent and its own
operand, and walks up and down from it do not end. -/
theorem replaceExpr_closes_cycle : ∃ t t', Revised t ∧ t.replaceExpr ⟨0⟩ ⟨1⟩ = .ok t' ∧
    t'.arena.Parent (.expr ⟨1⟩) (.expr ⟨1⟩) ∧ t'.arena.Child (.expr ⟨1⟩) (.expr ⟨1⟩) ∧
    t'.arena.nearestScope (.expr ⟨1⟩) = .error .endless ∧
    t'.arena.nodes (.expr ⟨1⟩) = .error .endless := by
  have hx : Revises .empty { arena := { exprs := #[⟨.identifier "x", none⟩] } } :=
    .make (.expr (.identifier "x") rfl (by decide) (by decide))
  have hparens : Revises { arena := { exprs := #[⟨.identifier "x", none⟩] } } { arena := { exprs :=
      #[⟨.identifier "x", some (.expr ⟨1⟩)⟩, ⟨.parens ⟨0⟩, none⟩] } } :=
    .make (.expr (.parens ⟨0⟩) rfl (by decide) (by decide))
  exact ⟨_, _, (ReflTransGen.single hx).tail hparens, rfl, rfl,
    ⟨_, rfl, List.mem_singleton.2 rfl⟩, rfl, rfl⟩

end Tree
end ExprTyping
