import ExprTyping.Proofs.Arena.Check
import ExprTyping.Proofs.Arena.Preorder

/-!
# Traversals

A traversal from a node comes to an end if the child slots run in no circle, and lists the node and
then what traversals from its children list (`Arena.nodes_recursive`). In a well-formed arena it
comes to every node whose way up passes through its start, to no other and to none twice, and never
to a node before its parent: the block of a node starts with the node and holds the blocks of its
children (`WellFormed.preorder_split`).
-/

namespace ExprTyping.Arena

variable {a : Arena} {n p r : NodeId}

/-- The stack with which a traversal from a node begins. -/
def start (a : Arena) (r : NodeId) : List NodeId := if a.contains r then [r] else []

/-- The recursion equation: what is below the children is what traversals from them list. -/
theorem Traversable.nodes_eq_cons (h : a.Traversable r) :
    ∃ cs below, a.children r = .ok cs ∧ cs.mapM a.nodes = .ok below ∧
      a.nodes r = .ok (r :: below.flatten) := by
  obtain ⟨cs, hcs⟩ := exists_children (h.contains r (.refl r))
  refine ⟨cs, cs.map a.preorder, hcs, ?_, ?_⟩
  · exact mapM_ok fun c hc => (h.child ⟨cs, hcs, hc⟩).nodes_eq
  · rw [h.nodes_eq, h.preorder_eq hcs, List.flatMap_def]

namespace WellFormed

variable (wf : a.WellFormed)
include wf

theorem mem_preorder (hr : a.contains r) : n ∈ a.preorder r ↔ a.Below r n := by
  induction r using wf.wellFounded_child.induction with
  | _ r ih =>
    obtain ⟨cs, hcs⟩ := exists_children hr
    rw [wf.preorder_eq hcs, List.mem_cons, List.mem_flatMap]
    constructor
    · rintro (rfl | ⟨c, hc, hn⟩)
      · exact .refl n
      · have hchild : a.Child r c := ⟨cs, hcs, hc⟩
        exact .of_child hchild ((ih c hchild (wf.contains_child _ _ hchild)).1 hn)
    · intro hn
      rcases hn.eq_or_child with rfl | ⟨c, hchild, hn⟩
      · exact .inl rfl
      · obtain ⟨cs', hcs', hc⟩ := id hchild
        obtain rfl := Except.ok.inj (hcs.symm.trans hcs')
        exact .inr ⟨c, hc, (ih c hchild (wf.contains_child _ _ hchild)).2 hn⟩

/-- The blocks of two children have no node in common, and none of them holds the node above. -/
theorem nodup_preorder (hr : a.contains r) : (a.preorder r).Nodup := by
  induction r using wf.wellFounded_child.induction with
  | _ r ih =>
    obtain ⟨cs, hcs⟩ := exists_children hr
    have hchild : ∀ c ∈ cs, a.Child r c := fun c hc => ⟨cs, hcs, hc⟩
    have hcontains : ∀ c ∈ cs, a.contains c := fun c hc => wf.contains_child _ _ (hchild c hc)
    rw [wf.preorder_eq hcs, List.nodup_cons, List.nodup_flatMap]
    refine ⟨fun hr => ?_, fun c hc => ih c (hchild c hc) (hcontains c hc), ?_⟩
    · obtain ⟨c, hc, hmem⟩ := List.mem_flatMap.1 hr
      exact wf.not_below_of_child (hchild c hc) ((wf.mem_preorder (hcontains c hc)).1 hmem)
    · refine (wf.nodup_children r cs hcs).imp_of_mem fun {y z} hy hz hne n hny hnz => hne ?_
      exact wf.eq_of_below (hchild y hy) (hchild z hz)
        ((wf.mem_preorder (hcontains y hy)).1 hny) ((wf.mem_preorder (hcontains z hz)).1 hnz)

/-- The parent of a node comes before it. -/
theorem sublist_preorder (hp : a.Parent n p) (h : a.Below r p) :
    [p, n].Sublist (a.preorder r) := by
  have hchild : a.Child p n := (wf.child_iff_parent p n).2 hp
  obtain ⟨cs, hcs, hn⟩ := hchild
  obtain ⟨left, right, rfl⟩ := List.append_of_mem hn
  obtain ⟨before, after, hblock⟩ := wf.exists_block h
  have hfirst : [n].Sublist (a.preorder n) := by
    rw [List.singleton_sublist]
    exact (wf.mem_preorder (wf.contains_child p n ⟨_, hcs, hn⟩)).2 (.refl n)
  have hparent : [p, n].Sublist (a.preorder p) := by
    rw [wf.preorder_split hcs]
    refine List.Sublist.trans (.cons_cons p ?_) (List.sublist_append_left _ _)
    exact hfirst.trans (List.sublist_append_right _ _)
  rw [hblock]
  exact (hparent.trans (List.sublist_append_right _ _)).trans (List.sublist_append_left _ _)

end WellFormed

/-- Traversals do not run for ever, and list nothing for a handle without a node. From a node they
list the node and then, child by child, what traversals from the children list; a stack that starts
with the node yields the same nodes in the same order. -/
theorem nodes_recursive (acyclic : ∀ n, ¬ Relation.TransGen a.Child n n) (r : NodeId) :
    a.nodes r ≠ .error .endless ∧
    (a.contains r = false → a.nodes r = .ok [] ∧ a.Visits (a.start r) []) ∧
    (a.contains r → (∀ n, a.Below r n → a.contains n) →
      (∃ cs below, a.children r = .ok cs ∧ cs.mapM a.nodes = .ok below ∧
        a.nodes r = .ok (r :: below.flatten)) ∧
      ∀ l, a.Visits (a.start r) l ↔ a.nodes r = .ok l) ∧
    (a.contains r → a.WellFormed →
      ∃ l, a.nodes r = .ok l ∧ l.Nodup ∧
        (∀ n, n ∈ l ↔ Relation.ReflTransGen a.Parent n r) ∧
        ∀ n ∈ l, n ≠ r → ∃ p, a.Parent n p ∧ [p, n].Sublist l) := by
  have ends : a.AcyclicBelow r := fun n _ => acyclic n
  refine ⟨ends.nodes_ne_endless, fun missing => ⟨?_, ?_⟩, fun hr contains => ?_, fun hr wf => ?_⟩
  · rw [nodes, if_neg (by simp [missing])]
  · rw [start, if_neg (by simp [missing])]
    exact .done
  · have traversable : a.Traversable r := ⟨contains, ends⟩
    refine ⟨traversable.nodes_eq_cons, fun l => ?_⟩
    rw [start, if_pos hr]
    exact traversable.visits_iff
  · refine ⟨a.preorder r, wf.nodes_eq hr, wf.nodup_preorder hr, fun n => ?_, fun n hn hne => ?_⟩
    · rw [wf.mem_preorder hr, wf.below_iff]
    · have hup : Relation.ReflTransGen a.Parent n r := wf.below_iff.1 ((wf.mem_preorder hr).1 hn)
      rcases Relation.ReflTransGen.cases_head hup with heq | ⟨p, hp, hpr⟩
      · exact absurd heq hne
      · exact ⟨p, hp, wf.sublist_preorder hp (wf.below_iff.2 hpr)⟩

/-- `{ if a < b { 1 } }` -/
def branch : Arena where
  exprs := #[
    { kind := .identifier "a", parent := some (.expr ⟨2⟩) },
    { kind := .identifier "b", parent := some (.expr ⟨2⟩) },
    { kind := .binary ⟨0⟩ .lessThan ⟨1⟩, parent := some (.stmt ⟨2⟩) },
    { kind := .constant (.int 1), parent := some (.stmt ⟨0⟩) }]
  stmts := #[
    { kind := .expressions [⟨3⟩], parent := some ⟨1⟩, ownsScope := false },
    { kind := .block [⟨0⟩], parent := some ⟨2⟩, ownsScope := true },
    { kind := .conditional ⟨2⟩ ⟨1⟩ none, parent := some ⟨3⟩, ownsScope := false },
    { kind := .block [⟨2⟩], ownsScope := true }]

/-- The condition and what is below it come before the inner block, and the block of the condition
is what a traversal from the condition lists. -/
theorem nodes_recursive_branch :
    (∃ cs below, branch.children (.stmt ⟨3⟩) = .ok cs ∧ cs.mapM branch.nodes = .ok below ∧
      branch.nodes (.stmt ⟨3⟩) = .ok (.stmt ⟨3⟩ :: below.flatten)) ∧
    branch.Visits [.stmt ⟨3⟩]
      [.stmt ⟨3⟩, .stmt ⟨2⟩, .expr ⟨2⟩, .expr ⟨0⟩, .expr ⟨1⟩, .stmt ⟨1⟩, .stmt ⟨0⟩, .expr ⟨3⟩] ∧
    (∃ l, branch.nodes (.stmt ⟨3⟩) = .ok l ∧ l.Nodup ∧
      (∀ n, n ∈ l ↔ Relation.ReflTransGen branch.Parent n (.stmt ⟨3⟩)) ∧
      ∀ n ∈ l, n ≠ .stmt ⟨3⟩ → ∃ p, branch.Parent n p ∧ [p, n].Sublist l) ∧
    branch.nodes (.expr ⟨4⟩) = .ok [] := by
  have wf : branch.WellFormed := wellFormed_of_check (by decide)
  have root : branch.contains (.stmt ⟨3⟩) := rfl
  obtain ⟨-, -, lists, forest⟩ := nodes_recursive wf.acyclic_child (.stmt ⟨3⟩)
  obtain ⟨recursion, visits⟩ := lists root fun _ => wf.contains_of_below root
  obtain ⟨-, missing, -⟩ := nodes_recursive wf.acyclic_child (.expr ⟨4⟩)
  exact ⟨recursion, (visits _).2 rfl, forest root wf, (missing rfl).1⟩

/-- `a + a` with the same node in both slots: acyclic, but the node is listed once for each slot. -/
example :
    nodes
      { exprs := #[
          { kind := .identifier "a", parent := some (.expr ⟨1⟩) },
          { kind := .binary ⟨0⟩ .add ⟨0⟩ }] }
      (.expr ⟨1⟩) = .ok [.expr ⟨1⟩, .expr ⟨0⟩, .expr ⟨0⟩] := rfl

end ExprTyping.Arena
