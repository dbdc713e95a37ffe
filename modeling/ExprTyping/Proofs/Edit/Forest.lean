import ExprTyping.Proofs.Edit.Steps
import Mathlib.Data.List.Nodup

/-!
# Forests

Child slots and parent links are kept in two places, and every operation on a tree writes both.
They stay inverse to each other, and no node ever stands in two slots, in every tree that is built
by constructors from detached nodes and edited by `replaceExpr` and `wrapExpr`
(`Tree.slots_inverse_to_parents`).

While a builder runs, the wrapped expression still stands in its old slot but has lost its parent,
and the builder may give it another one: it may even stand in two slots. `Arena.ForestBut` is the
invariant that leaves this one slot out of account.

* A constructor keeps it, whatever slot is left out (`ForestBut.adds`), so the same lemma serves
  outside a builder and inside.
* Rewiring fills the slot that was left out and restores the forest (`ForestBut.rewires`).
-/

namespace ExprTyping

open Relation

namespace Arena

variable {a b : Arena} {loose : Option (NodeId × NodeId)} {n p c : NodeId} {cs : List NodeId}
  {e old new : ExprId}

/-! ## The invariant -/

/-- No node stands twice in the slots of one node, and the children of a node are those whose parent
it is, if the content of one slot is left out of account. -/
structure ForestBut (a : Arena) (loose : Option (NodeId × NodeId)) : Prop where
  nodup_children : ∀ p cs, a.children p = .ok cs → cs.Nodup
  child_iff : ∀ p c, a.Child p c ↔ a.Parent c p ∨ loose = some (p, c)

/-- No node stands twice in the slots of one node, and the children of a node are those whose parent
it is. -/
def Forest (a : Arena) : Prop := a.ForestBut none

namespace Forest

theorem child_iff_parent (h : a.Forest) (p c : NodeId) : a.Child p c ↔ a.Parent c p := by
  simpa using h.child_iff p c

/-- The content of any slot can be left out of account. -/
theorem loosen (h : a.Forest) (hc : a.Child p c) : a.ForestBut (some (p, c)) where
  nodup_children := h.nodup_children
  child_iff q d := by
    rw [h.child_iff_parent]
    refine ⟨.inl, fun hd => hd.elim id fun heq => ?_⟩
    cases heq
    exact (h.child_iff_parent p c).1 hc

/-- The empty arena is a forest. -/
theorem empty : Forest {} where
  nodup_children p cs h := by cases p <;> cases h
  child_iff p c := by
    constructor
    · rintro ⟨cs, hcs, -⟩
      cases p <;> cases hcs
    · rintro (h | h)
      · cases c <;> cases h
      · cases h

/-- An expression that loses its parent still stands in its slot. -/
theorem free (h : a.Forest) (hp : a.Parent (.expr e) p) :
    (a.setExprParent e none).ForestBut (some (p, .expr e)) where
  nodup_children q cs hcs := h.nodup_children q cs (by rwa [children_setExprParent] at hcs)
  child_iff q d := by
    have hchild : (a.setExprParent e none).Child q d ↔ a.Child q d := by
      rw [Child, children_setExprParent, Child]
    rw [hchild, h.child_iff_parent, Parent, Parent,
      a.parent_setExprParent (contains_of_parent hp)]
    by_cases hd : d = .expr e
    · subst hd
      rw [if_pos rfl]
      constructor
      · intro hq
        right
        rw [hp.unique hq]
      · rintro (hq | hq)
        · cases hq
        · cases hq
          exact hp
    · rw [if_neg hd]
      refine ⟨.inl, fun hq => hq.elim id fun heq => ?_⟩
      cases heq
      exact absurd rfl hd

end Forest

namespace ForestBut

/-- What is left out of account is the content of a slot. -/
theorem child (h : a.ForestBut (some (p, c))) : a.Child p c := (h.child_iff p c).2 (.inr rfl)

/-- A new node over detached ones keeps what is a forest but for one slot. -/
theorem adds (h : a.ForestBut loose) (hb : a.Adds b n cs) (hdetached : ∀ c ∈ cs, a.Detached c)
    (hnodup : cs.Nodup) : b.ForestBut loose where
  nodup_children q ds hds := by
    by_cases hq : q = n
    · subst hq
      rw [hb.children_new] at hds
      cases hds
      exact hnodup
    · rw [hb.children_old q hq] at hds
      exact h.nodup_children q ds hds
  child_iff q d := by rw [hb.child_iff, hb.parent_iff hdetached, h.child_iff, or_assoc]

/-- A detached expression fills the slot that was left out of account. -/
theorem rewires (h : a.ForestBut (some (p, .expr old))) (hb : a.Rewires b p old new)
    (hnew : a.Detached (.expr new)) : b.Forest where
  nodup_children q ds hds := by
    by_cases hq : q = p
    · subst hq
      obtain ⟨cs, hcs, hold, hcs'⟩ := hb.children_parent
      rw [hcs'] at hds
      cases hds
      refine nodup_replace (h.nodup_children q cs hcs) hold fun hmem => ?_
      -- without a parent, the new expression can only stand in the slot left out of account
      have hslot := ((h.child_iff q _).1 ⟨cs, hcs, hmem⟩).resolve_left (hnew.not_parent q)
      exact (Prod.mk.inj (Option.some.inj hslot)).2.symm
    · rw [hb.children_frame q hq] at hds
      exact h.nodup_children q ds hds
  child_iff q d := by
    rw [hb.child_iff h.nodup_children, hb.parent_iff hnew, h.child_iff]
    simp only [Option.some.injEq, Prod.mk.injEq, reduceCtorEq, or_false]
    refine or_congr_right (and_congr_right fun hslot => ?_)
    exact or_iff_left fun heq => hslot ⟨heq.1.symm, heq.2.symm⟩

end ForestBut
/-! ## All slots -/

/-- The nodes of an arena. -/
def handles (a : Arena) : List NodeId :=
  (List.range a.exprs.size).map (fun i => .expr ⟨i⟩) ++
    (List.range a.stmts.size).map fun i => .stmt ⟨i⟩

/-- What stands in the child slots of all nodes. -/
def slots (a : Arena) : List NodeId :=
  a.handles.flatMap fun n => (a.children n).toOption.getD []

theorem nodup_handles (a : Arena) : a.handles.Nodup := by
  refine List.nodup_append.2 ⟨?_, ?_, fun n hn m hm => ?_⟩
  · exact List.nodup_range.map fun i j h => by simpa using h
  · exact List.nodup_range.map fun i j h => by simpa using h
  · obtain ⟨i, -, rfl⟩ := List.mem_map.1 hn
    obtain ⟨j, -, rfl⟩ := List.mem_map.1 hm
    exact NodeId.noConfusion

theorem child_iff_mem (a : Arena) (p c : NodeId) :
    a.Child p c ↔ c ∈ (a.children p).toOption.getD [] := by
  rw [Child]
  cases a.children p <;> simp [Except.toOption]

/-- In a forest no node stands in two slots. -/
theorem Forest.nodup_slots (h : a.Forest) : a.slots.Nodup := by
  refine List.nodup_flatMap.2 ⟨fun p _ => ?_, a.nodup_handles.imp fun {p q} hpq c hp hq => ?_⟩
  · cases hcs : a.children p with
    | error fault => exact List.nodup_nil
    | ok cs => exact h.nodup_children p cs hcs
  · have hparent := (h.child_iff_parent p c).1 ((a.child_iff_mem p c).2 hp)
    have hparent' := (h.child_iff_parent q c).1 ((a.child_iff_mem q c).2 hq)
    exact hpq (hparent.unique hparent')

end Arena

namespace Tree

variable {t t' : Tree} {loose : Option (NodeId × NodeId)}

/-! ## Steps and histories -/

theorem Makes.forestBut (h : t.Makes t') (ht : t.arena.ForestBut loose) :
    t'.arena.ForestBut loose := by
  obtain ⟨n, cs, hadds, hdetached, hnodup⟩ := h.exists_adds
  exact ht.adds hadds hdetached hnodup

/-- Constructors, one after another, keep what is a forest but for one slot. -/
theorem forestBut_of_makes (h : ReflTransGen Makes t t') (ht : t.arena.ForestBut loose) :
    t'.arena.ForestBut loose := by
  induction h with
  | refl => exact ht
  | tail _ hmakes ih => exact hmakes.forestBut ih

/-- A call that makes a node, replaces an expression or wraps one keeps a forest. -/
theorem Edits.forest (h : t.Edits t') (ht : t.arena.Forest) : t'.arena.Forest := by
  cases h with
  | make h => exact h.forestBut ht
  | replace old new result =>
    subst result
    cases hreplace : t.replaceExpr old new with
    | error error => exact ht
    | ok replaced =>
      rcases replaceExpr_cases hreplace with rfl | ⟨p, hp, hnew, hrewire⟩
      · exact ht
      · have hloose := ht.loosen ((ht.child_iff_parent p _).2 hp)
        obtain ⟨rewired, hrewire', hrewires⟩ := exists_rewire hloose.child hnew.contains
        rw [hrewire] at hrewire'
        cases hrewire'
        exact hloose.rewires hrewires hnew
  | wrap old build builds result =>
    rcases wrapExpr_cases result with rfl | ⟨p, built, new, hp, hbuild, hresult⟩
    · exact ht
    · obtain ⟨built', new', hbuild', hmakes, hnew⟩ := builds p hp
      rw [hbuild] at hbuild'
      cases hbuild'
      have hloose : built.arena.ForestBut (some (p, .expr old)) :=
        forestBut_of_makes hmakes (ht.free hp)
      obtain ⟨rewired, hrewire, hrewires⟩ := exists_rewire hloose.child hnew.contains
      rcases hresult with hresult | ⟨-, hmissing | ⟨error, herror⟩⟩
      · rw [hrewire] at hresult
        cases hresult
        exact hloose.rewires hrewires hnew
      · exact absurd hnew.contains hmissing
      · rw [hrewire] at herror
        cases herror

/-- Every tree that is built from the empty one by constructors and edits is a forest. -/
theorem Reached.forest (h : t.Reached) : t.arena.Forest := by
  induction h with
  | refl => exact .empty
  | tail _ hedits ih => exact hedits.forest ih

/-- In every tree that is built from the empty one by constructors and edits, no node stands in two
child slots of the whole tree, and a node stands in a slot of another one exactly if that is its
parent. -/
theorem slots_inverse_to_parents (h : t.Reached) :
    t.arena.slots.Nodup ∧ ∀ p c, t.arena.Child p c ↔ t.arena.Parent c p :=
  ⟨h.forest.nodup_slots, h.forest.child_iff_parent⟩

/-- A tree with a single statement, which is an expression. -/
def singleStatement (root : ExprId) (exprs : Array ExprNode) : Tree where
  arena := { exprs, stmts := #[⟨.expressions [root], none, false⟩] }

/-- `x` as a statement; then `y` takes the place of `x` and is wrapped into `y + x`. -/
theorem slots_of_wrapped_sum :
    ∃ t, Reached t ∧ t.arena.slots = [.expr ⟨1⟩, .expr ⟨0⟩, .expr ⟨2⟩] ∧
      t.arena.slots.Nodup ∧ ∀ p c, t.arena.Child p c ↔ t.arena.Parent c p := by
  have hx : Edits .empty { arena := { exprs := #[⟨.identifier "x", none⟩] } } :=
    .make (.expr (.identifier "x") rfl (by decide) (by decide))
  have hstmt : Edits { arena := { exprs := #[⟨.identifier "x", none⟩] } }
      (singleStatement ⟨0⟩ #[⟨.identifier "x", some (.stmt ⟨0⟩)⟩]) :=
    .make (.stmt (.expressions [⟨0⟩]) rfl (by decide) (by decide) (by decide) (by decide))
  have hy : Edits (singleStatement ⟨0⟩ #[⟨.identifier "x", some (.stmt ⟨0⟩)⟩])
      (singleStatement ⟨0⟩
        #[⟨.identifier "x", some (.stmt ⟨0⟩)⟩, ⟨.identifier "y", none⟩]) :=
    .make (.expr (.identifier "y") rfl (by decide) (by decide))
  have hreplaced : Edits
      (singleStatement ⟨0⟩ #[⟨.identifier "x", some (.stmt ⟨0⟩)⟩, ⟨.identifier "y", none⟩])
      (singleStatement ⟨1⟩ #[⟨.identifier "x", none⟩, ⟨.identifier "y", some (.stmt ⟨0⟩)⟩]) :=
    .replace ⟨0⟩ ⟨1⟩ rfl
  have hmakes : Makes
      (singleStatement ⟨1⟩ #[⟨.identifier "x", none⟩, ⟨.identifier "y", none⟩])
      (singleStatement ⟨1⟩ #[⟨.identifier "x", some (.expr ⟨2⟩)⟩,
        ⟨.identifier "y", some (.expr ⟨2⟩)⟩, ⟨.binary ⟨1⟩ .add ⟨0⟩, none⟩]) :=
    .expr (.binary ⟨1⟩ .add ⟨0⟩) rfl (by decide) (by decide)
  have hwrapped : Edits
      (singleStatement ⟨1⟩ #[⟨.identifier "x", none⟩, ⟨.identifier "y", some (.stmt ⟨0⟩)⟩])
      (singleStatement ⟨2⟩ #[⟨.identifier "x", some (.expr ⟨2⟩)⟩,
        ⟨.identifier "y", some (.expr ⟨2⟩)⟩, ⟨.binary ⟨1⟩ .add ⟨0⟩, some (.stmt ⟨0⟩)⟩]) :=
    .wrap ⟨1⟩ (fun t y => t.addExpr (.binary y .add ⟨0⟩))
      (fun _ _ => ⟨_, _, rfl, .single hmakes, rfl⟩) rfl
  have hreached : Reached _ := ((((ReflTransGen.single hx).tail hstmt).tail hy).tail hreplaced).tail
    hwrapped
  exact ⟨_, hreached, rfl, slots_inverse_to_parents hreached⟩

end Tree
end ExprTyping
