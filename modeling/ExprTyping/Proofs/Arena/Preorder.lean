import ExprTyping.Proofs.Arena.Reading

/-!
# Pre-order

`Arena.preorder` lists a node and then, child by child in source order, what is below it, if all
handles met on the way name nodes and no way down runs in a circle (`Traversable.preorder_eq`). It is
the sequence of a traversal that keeps the nodes still to come on a stack and puts the children of a
node in its place (`Traversable.visits_iff`). Nothing keeps a node from standing in two slots: it is
then listed once for each of them.

In a well-formed arena every node can be traversed. What is below a node is a block of the sequence
from any node above it (`WellFormed.exists_block`), and it depends on nothing but the slots of the
nodes in the block (`WellFormed.preorder_congr`).
-/

namespace ExprTyping

theorem exists_of_mapM_error {α β ε : Type} {f : α → Except ε β} {e : ε} {xs : List α}
    (h : xs.mapM f = .error e) : ∃ x ∈ xs, f x = .error e := by
  induction xs with
  | nil => cases h
  | cons x rest ih =>
    rw [List.mapM_cons] at h
    cases hx : f x with
    | error e' =>
      rw [hx] at h
      cases h
      exact ⟨x, List.mem_cons_self, hx⟩
    | ok y =>
      cases hrest : rest.mapM f with
      | error e' =>
        rw [hx, hrest] at h
        cases h
        obtain ⟨z, hz, hf⟩ := ih hrest
        exact ⟨z, List.mem_cons_of_mem x hz, hf⟩
      | ok ys =>
        rw [hx, hrest] at h
        cases h

namespace Arena

variable {a b : Arena} {n m c r : NodeId} {cs : List NodeId}

/-- A node and everything below it, each node before what is below it, in source order. -/
def preorder (a : Arena) (n : NodeId) : List NodeId := (a.nodes n).toOption.getD []

/-- With the nodes of the first list on its stack, the next one first, a traversal yields the nodes
of the second list: it takes the next node off the stack and puts its children there. -/
inductive Visits (a : Arena) : List NodeId → List NodeId → Prop
  | done : Visits a [] []
  | next {n : NodeId} {cs stack rest : List NodeId} (children_eq : a.children n = .ok cs)
      (visits : Visits a (cs ++ stack) rest) : Visits a (n :: stack) (n :: rest)

/-- A traversal has one result. -/
theorem Visits.unique {stack l l' : List NodeId} (h : a.Visits stack l) (h' : a.Visits stack l') :
    l = l' := by
  induction h generalizing l' with
  | done =>
    cases h'
    rfl
  | next children_eq _ ih =>
    cases h' with
    | next children_eq' visits =>
      obtain rfl := Except.ok.inj (children_eq.symm.trans children_eq')
      rw [ih visits]

/-! ## Where a traversal ends -/

/-- No node below `r` is below itself, so that every way down from `r` ends. -/
def AcyclicBelow (a : Arena) (r : NodeId) : Prop :=
  ∀ n, a.Below r n → ¬ Relation.TransGen a.Child n n

theorem AcyclicBelow.child (h : a.AcyclicBelow r) (hc : a.Child r c) : a.AcyclicBelow c :=
  fun n hn => h n (.of_child hc hn)

/-- A handle without a node has nothing below it; a node has at most the other nodes. -/
theorem AcyclicBelow.exists_rank (h : a.AcyclicBelow r) (hr : a.contains r) :
    ∃ rank : NodeId → ℕ, rank r ≤ a.size ∧
      ∀ p c, a.Below r p → a.Child p c → rank c < rank p := by
  have mem : ∀ p c, (a.Below r p ∧ a.Child p c) ∧ a.contains c → c ∈ a.targets.erase r := by
    rintro p c ⟨⟨hp, hc⟩, hcontains⟩
    refine Finset.mem_erase.2 ⟨?_, mem_targets hcontains⟩
    rintro rfl
    exact h c (.refl c) (Relation.TransGen.tail' hp hc)
  have acyclic : ∀ n, ¬ Relation.TransGen
      (fun p c => (a.Below r p ∧ a.Child p c) ∧ a.contains c) n n := by
    intro n hn
    obtain ⟨c, ⟨⟨hbelow, -⟩, -⟩, -⟩ := Relation.TransGen.head'_iff.1 hn
    exact h n hbelow (hn.lift id fun _ _ hstep => hstep.1.2)
  obtain ⟨rank, hle, hlt⟩ := ExprTyping.exists_rank (a.targets.erase r) mem acyclic
  refine ⟨fun n => if a.contains n then rank n + 1 else 0, ?_, fun p c hp hc => ?_⟩
  · have hcard := Finset.card_erase_lt_of_mem (mem_targets hr)
    have htargets := card_targets_le (a := a)
    have hrank := hle r
    simp only [hr, if_true]
    omega
  · simp only [hc.contains, if_true]
    split_ifs with hcontains
    · exact Nat.succ_lt_succ (hlt p c ⟨⟨hp, hc⟩, hcontains⟩)
    · exact Nat.succ_pos _

theorem children_ne_endless (a : Arena) (n : NodeId) : a.children n ≠ .error .endless := by
  cases n with
  | expr e =>
    rw [children, expr]
    cases a.exprs[e.index]? <;> exact fun h => by cases h
  | stmt s =>
    rw [children, stmt]
    cases a.stmts[s.index]? <;> exact fun h => by cases h

/-- A traversal that comes to no node again meets no bound. -/
theorem AcyclicBelow.nodes_ne_endless (h : a.AcyclicBelow r) : a.nodes r ≠ .error .endless := by
  by_cases hr : a.contains r
  · obtain ⟨rank, hle, hlt⟩ := h.exists_rank hr
    suffices ∀ depth n, a.Below r n → rank n < depth → a.nodesWithin depth n ≠ .error .endless by
      rw [nodes, if_pos hr]
      exact this _ r (.refl r) (Nat.lt_succ_of_le hle)
    intro depth
    induction depth with
    | zero => intro n _ hrank; omega
    | succ depth ih =>
      intro n hn hrank hendless
      rw [nodesWithin] at hendless
      cases hcs : a.children n with
      | error fault =>
        rw [hcs] at hendless
        cases hendless
        exact a.children_ne_endless n hcs
      | ok cs =>
        rw [hcs] at hendless
        have hbelow : ∀ c ∈ cs, a.nodesWithin depth c ≠ .error .endless := by
          intro c hc
          have hchild : a.Child n c := ⟨cs, hcs, hc⟩
          have hlower := hlt n c hn hchild
          exact ih c (hn.tail hchild) (by omega)
        cases hlists : cs.mapM (a.nodesWithin depth) with
        | error fault =>
          obtain ⟨c, hc, hfault⟩ := exists_of_mapM_error hlists
          simp only [bind, Except.bind, hlists] at hendless
          cases hendless
          exact hbelow c hc hfault
        | ok lists =>
          simp only [bind, Except.bind, hlists] at hendless
          cases hendless
  · rw [nodes, if_neg hr]
    exact fun h => by cases h

/-! ## What a traversal lists -/

/-- A traversal from the node meets handles of the arena only and comes to an end. -/
structure Traversable (a : Arena) (r : NodeId) : Prop where
  contains : ∀ n, a.Below r n → a.contains n
  acyclic : a.AcyclicBelow r

namespace Traversable

variable (h : a.Traversable r)
include h

theorem child (hc : a.Child r c) : a.Traversable c where
  contains n hn := h.contains n (.of_child hc hn)
  acyclic := h.acyclic.child hc

/-- What is listed to a depth that is not met does not depend on the depth. -/
theorem exists_nodesWithin {rank : NodeId → ℕ}
    (hrank : ∀ p c, a.Below r p → a.Child p c → rank c < rank p) :
    ∃ list : NodeId → List NodeId, ∀ n, a.Below r n → ∀ depth, rank n < depth →
      a.nodesWithin depth n = .ok (list n) := by
  suffices ∀ n, a.Below r n → ∃ l, ∀ depth, rank n < depth → a.nodesWithin depth n = .ok l by
    choose! list hlist using this
    exact ⟨list, hlist⟩
  intro n
  induction n using (InvImage.wf rank Nat.lt_wfRel.wf).induction with
  | _ n ih =>
    intro hn
    obtain ⟨cs, hcs⟩ := exists_children (h.contains n hn)
    have below : ∀ c ∈ cs, ∃ l, ∀ depth, rank c < depth → a.nodesWithin depth c = .ok l := by
      intro c hc
      have hchild : a.Child n c := ⟨cs, hcs, hc⟩
      exact ih c (hrank n c hn hchild) (hn.tail hchild)
    choose! list hlist using below
    refine ⟨n :: (cs.map list).flatten, fun depth hdepth => ?_⟩
    obtain ⟨d, rfl⟩ : ∃ d, depth = d + 1 := ⟨depth - 1, by omega⟩
    have hlower : ∀ c ∈ cs, a.nodesWithin d c = .ok (list c) := by
      intro c hc
      have hlt := hrank n c hn ⟨cs, hcs, hc⟩
      exact hlist c hc d (by omega)
    rw [nodesWithin, hcs]
    simp only [bind, Except.bind, mapM_ok hlower]
    rfl

theorem nodes_eq : a.nodes r = .ok (a.preorder r) := by
  have hr := h.contains r (.refl r)
  obtain ⟨rank, hle, hrank⟩ := h.acyclic.exists_rank hr
  obtain ⟨list, hlist⟩ := h.exists_nodesWithin hrank
  have hnodes : a.nodes r = .ok (list r) := by
    rw [nodes, if_pos hr]
    exact hlist r (.refl r) _ (Nat.lt_succ_of_le hle)
  rw [preorder, hnodes]
  rfl

/-- A node comes first, then what is below its children. -/
theorem preorder_eq (hcs : a.children r = .ok cs) :
    a.preorder r = r :: cs.flatMap a.preorder := by
  have hr := contains_of_children hcs
  obtain ⟨rank, hle, hrank⟩ := h.acyclic.exists_rank hr
  obtain ⟨list, hlist⟩ := h.exists_nodesWithin hrank
  have hlower : ∀ c ∈ cs, a.nodesWithin a.size c = .ok (list c) := by
    intro c hc
    have hlt := hrank r c (.refl r) ⟨cs, hcs, hc⟩
    exact hlist c (.of_child ⟨cs, hcs, hc⟩ (.refl c)) _ (by omega)
  have hchild : ∀ c ∈ cs, list c = a.preorder c := by
    intro c hc
    have hchild : a.Child r c := ⟨cs, hcs, hc⟩
    have hlt := hrank r c (.refl r) hchild
    have hnodes := (h.child hchild).nodes_eq
    rw [nodes, if_pos ((h.child hchild).contains c (.refl c)),
      hlist c (.of_child hchild (.refl c)) _ (by omega)] at hnodes
    exact Except.ok.inj hnodes
  rw [← List.flatMap_congr hchild, preorder, nodes, if_pos hr, nodesWithin, hcs]
  simp only [bind, Except.bind, mapM_ok hlower, List.flatMap_def]
  rfl

end Traversable

/-! ## The stack of a traversal -/

theorem visits_preorder {stack : List NodeId} (h : ∀ n ∈ stack, a.Traversable n) :
    a.Visits stack (stack.flatMap a.preorder) := by
  induction hlength : (stack.flatMap a.preorder).length using Nat.strong_induction_on
    generalizing stack with
  | _ k ih =>
    cases stack with
    | nil => exact .done
    | cons n stack =>
      have hn := h n List.mem_cons_self
      obtain ⟨cs, hcs⟩ := exists_children (hn.contains n (.refl n))
      have hsplit : (n :: stack).flatMap a.preorder = n :: (cs ++ stack).flatMap a.preorder := by
        rw [List.flatMap_cons, hn.preorder_eq hcs, List.flatMap_append]
        rfl
      rw [hsplit] at hlength ⊢
      refine .next hcs (ih _ (by simp [← hlength]) (fun m hm => ?_) rfl)
      rcases List.mem_append.1 hm with hm | hm
      · exact hn.child ⟨cs, hcs, hm⟩
      · exact h m (List.mem_cons_of_mem n hm)

/-- The nodes below a node are what a traversal with a stack yields from it. -/
theorem Traversable.visits_iff (h : a.Traversable r) {l : List NodeId} :
    a.Visits [r] l ↔ a.nodes r = .ok l := by
  have hvisits : a.Visits [r] ([r].flatMap a.preorder) := visits_preorder (by simpa using h)
  rw [List.flatMap_singleton] at hvisits
  rw [h.nodes_eq, Except.ok.injEq]
  exact ⟨hvisits.unique, fun heq => heq ▸ hvisits⟩

/-! ## Well-formed arenas -/

namespace WellFormed

variable (wf : a.WellFormed)
include wf

theorem traversable (hn : a.contains n) : a.Traversable n where
  contains _ := wf.contains_of_below hn
  acyclic m _ := wf.acyclic_child m

theorem nodes_eq (hn : a.contains n) : a.nodes n = .ok (a.preorder n) :=
  (wf.traversable hn).nodes_eq

theorem preorder_eq (hcs : a.children n = .ok cs) : a.preorder n = n :: cs.flatMap a.preorder :=
  (wf.traversable (contains_of_children hcs)).preorder_eq hcs

/-- The block of a child stands between the blocks of the children before and after it. -/
theorem preorder_split {before after : List NodeId}
    (hcs : a.children n = .ok (before ++ c :: after)) :
    a.preorder n = (n :: before.flatMap a.preorder) ++ a.preorder c ++
      after.flatMap a.preorder := by
  rw [wf.preorder_eq hcs]
  simp

/-- What is below a node is a block of the sequence from any node above it. -/
theorem exists_block (h : a.Below n m) :
    ∃ before after, a.preorder n = before ++ a.preorder m ++ after := by
  induction h using Relation.ReflTransGen.head_induction_on with
  | refl => exact ⟨[], [], by simp⟩
  | @head n c hchild _ ih =>
    obtain ⟨cs, hcs, hc⟩ := hchild
    obtain ⟨left, right, rfl⟩ := List.append_of_mem hc
    obtain ⟨before, after, heq⟩ := ih
    refine ⟨n :: left.flatMap a.preorder ++ before, after ++ right.flatMap a.preorder, ?_⟩
    rw [wf.preorder_split hcs, heq]
    simp

/-- Nodes with the same slots have the same sequence below them. -/
theorem preorder_congr (wf' : b.WellFormed) (hn : a.contains n)
    (h : ∀ m, a.Below n m → b.children m = a.children m) : b.preorder n = a.preorder n := by
  induction n using wf.wellFounded_child.induction with
  | _ n ih =>
    obtain ⟨cs, hcs⟩ := exists_children hn
    rw [wf.preorder_eq hcs, wf'.preorder_eq ((h n (.refl n)).trans hcs)]
    refine congrArg _ (List.flatMap_congr fun c hc => ?_)
    have hchild : a.Child n c := ⟨cs, hcs, hc⟩
    exact ih c hchild (wf.contains_child _ _ hchild) fun m hm => h m (.of_child hchild hm)

end WellFormed
end Arena
end ExprTyping
