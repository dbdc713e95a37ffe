import ExprTyping.Proofs.Arena.WellFormed
import Mathlib.Data.List.Nodup

/-!
# The way up

`Arena.ancestors` lists the nodes above a node, nearest first, and `Arena.owners` the statements
among the node and those above it in which names can be declared. A search that climbs takes the
answer of the node or goes on at the parent (`Arena.firstUpwardWithin_succ`); in a well-formed arena
it is a search through these lists (`WellFormed.firstUpward_owners`).
-/

namespace ExprTyping.Arena

variable {a : Arena} {α : Type} {pick : StmtId → StmtNode → Option α} {n p : NodeId}

/-- The nodes above a node, nearest first, at most as many as the first argument says. -/
def ancestorsWithin (a : Arena) : Nat → NodeId → List NodeId
  | 0, _ => []
  | bound + 1, n =>
    match a.parent n with
    | .ok (some p) => p :: a.ancestorsWithin bound p
    | _ => []

/-- The nodes above a node, nearest first. -/
def ancestors (a : Arena) (n : NodeId) : List NodeId := a.ancestorsWithin a.size n

/-- Whether names can be declared in a statement. -/
def owns (a : Arena) (s : StmtId) : Bool :=
  match a.stmt s with
  | .ok node => node.ownsScope
  | .error _ => false

/-- The node, if it is a statement in which names can be declared. -/
def owner? (a : Arena) : NodeId → Option StmtId
  | .expr _ => none
  | .stmt s => if a.owns s then some s else none

/-- The statements above a node in which names can be declared, nearest first. -/
def ownersAbove (a : Arena) (n : NodeId) : List StmtId := (a.ancestors n).filterMap a.owner?

/-- The same with the node itself, if names can be declared there. -/
def owners (a : Arena) (n : NodeId) : List StmtId := (a.owner? n).toList ++ a.ownersAbove n

/-- Where the variable of a loop is declared, if names can be declared there: in the body or else in
the loop. -/
def binder (a : Arena) (loop body : StmtId) : StmtId := if a.owns body then body else loop

theorem owns_eq {s : StmtId} {node : StmtNode} (h : a.stmt s = .ok node) :
    a.owns s = node.ownsScope := by
  rw [owns, h]

@[simp] theorem owners_expr (e : ExprId) : a.owners (.expr e) = a.ownersAbove (.expr e) := rfl

theorem owners_of_owns {s : StmtId} (h : a.owns s = true) :
    a.owners (.stmt s) = s :: a.ownersAbove (.stmt s) := by
  simp [owners, owner?, h]

theorem owners_of_not_owns {s : StmtId} (h : a.owns s = false) :
    a.owners (.stmt s) = a.ownersAbove (.stmt s) := by
  simp [owners, owner?, h]

theorem owners_eq (n : NodeId) : a.owners n = (n :: a.ancestors n).filterMap a.owner? := by
  rw [owners, ownersAbove, List.filterMap_cons]
  cases a.owner? n <;> rfl

theorem owns_binder {loop body : StmtId} (h : a.owns body ∨ a.owns loop) :
    a.owns (a.binder loop body) = true := by
  rw [binder]
  split_ifs with hbody
  · exact hbody
  · exact h.resolve_left hbody

theorem owner?_eq_some {n : NodeId} {s : StmtId} (h : a.owner? n = some s) : n = .stmt s := by
  cases n with
  | expr e => cases h
  | stmt t =>
    rw [owner?] at h
    split_ifs at h
    cases h
    rfl

theorem owns_of_mem_ownersAbove {n : NodeId} {s : StmtId} (h : s ∈ a.ownersAbove n) :
    a.owns s = true := by
  obtain ⟨m, -, hm⟩ := List.mem_filterMap.1 h
  obtain rfl := owner?_eq_some hm
  by_contra howns
  rw [owner?, if_neg howns] at hm
  cases hm

theorem ancestorsWithin_of_no_parent {n : NodeId} (h : ∀ p, ¬ a.Parent n p) (b : ℕ) :
    a.ancestorsWithin b n = [] := by
  cases b with
  | zero => rfl
  | succ b =>
    rw [ancestorsWithin]
    split
    · rename_i p hp
      exact absurd hp (h p)
    · rfl

theorem ancestorsWithin_of_parent {n p : NodeId} (h : a.Parent n p) (b : ℕ) :
    a.ancestorsWithin (b + 1) n = p :: a.ancestorsWithin b p := by
  rw [ancestorsWithin, show a.parent n = .ok (some p) from h]

/-- A bound that is not met makes no difference. -/
theorem ancestorsWithin_eq {rank : NodeId → ℕ} (hlt : ∀ c p, a.Parent c p → rank p < rank c)
    {n : NodeId} {b b' : ℕ} (hb : rank n ≤ b) (hb' : rank n ≤ b') :
    a.ancestorsWithin b n = a.ancestorsWithin b' n := by
  induction b generalizing n b' with
  | zero =>
    have h : ∀ p, ¬ a.Parent n p := fun p hp => by have := hlt n p hp; omega
    rw [ancestorsWithin_of_no_parent h, ancestorsWithin_of_no_parent h]
  | succ b ih =>
    by_cases h : ∃ p, a.Parent n p
    · obtain ⟨p, hp⟩ := h
      have hrank := hlt n p hp
      obtain ⟨c, rfl⟩ : ∃ c, b' = c + 1 := ⟨b' - 1, by omega⟩
      rw [ancestorsWithin_of_parent hp, ancestorsWithin_of_parent hp,
        ih (by omega : rank p ≤ b) (by omega : rank p ≤ c)]
    · have h : ∀ p, ¬ a.Parent n p := fun p hp => h ⟨p, hp⟩
      rw [ancestorsWithin_of_no_parent h, ancestorsWithin_of_no_parent h]

theorem ownersAbove_of_no_parent {n : NodeId} (h : ∀ p, ¬ a.Parent n p) :
    a.ownersAbove n = [] := by
  rw [ownersAbove, ancestors, ancestorsWithin_of_no_parent h]
  rfl

/-! ## Climbing step by step -/

/-- What the node itself answers. -/
def answer? (a : Arena) (pick : StmtId → StmtNode → Option α) : NodeId → Option α
  | .expr _ => none
  | .stmt s => (a.stmt s).toOption.bind (pick s)

/-- What a climb finds from the parent of the node, if there is one. -/
def onward (a : Arena) (climb : NodeId → Except Fault (Option α)) (n : NodeId) :
    Except Fault (Option α) := do
  match ← a.parent n with
  | some p => climb p
  | none => return none

/-- Where only statements are asked in which names can be declared, no other node answers. -/
theorem answer?_owner (pick : StmtId → Option α) (n : NodeId) :
    a.answer? (fun s stmt => if stmt.ownsScope then pick s else none) n =
      (a.owner? n).bind pick := by
  cases n with
  | expr e => rfl
  | stmt s =>
    rw [answer?, owner?, owns]
    cases a.stmt s with
    | error fault => rfl
    | ok node => cases howns : node.ownsScope <;> simp [howns, Except.toOption]

theorem onward_of_parent {climb : NodeId → Except Fault (Option α)} (hp : a.Parent n p) :
    a.onward climb n = climb p := by
  rw [onward, show a.parent n = .ok (some p) from hp]
  rfl

theorem onward_of_no_parent {climb : NodeId → Except Fault (Option α)}
    (h : a.parent n = .ok none) : a.onward climb n = .ok none := by
  rw [onward, h]
  rfl

theorem onward_congr {climb climb' : NodeId → Except Fault (Option α)}
    (h : ∀ p, a.Parent n p → climb p = climb' p) : a.onward climb n = a.onward climb' n := by
  rw [onward, onward]
  cases hn : a.parent n with
  | error fault => rfl
  | ok q =>
    cases q with
    | none => rfl
    | some p => exact h p hn

/-- A climb takes the answer of the node or goes on at the parent. -/
theorem firstUpwardWithin_succ (bound : ℕ) (n : NodeId) :
    a.firstUpwardWithin pick (bound + 1) n =
      match a.answer? pick n with
      | some answer => .ok (some answer)
      | none => a.onward (a.firstUpwardWithin pick bound) n := by
  cases n with
  | expr e =>
    rw [firstUpwardWithin, answer?, onward, parent]
    cases a.expr e with
    | error fault => rfl
    | ok node => rfl
  | stmt s =>
    rw [firstUpwardWithin, answer?, onward, parent]
    cases hs : a.stmt s with
    | error fault => rfl
    | ok node =>
      simp only [bind, Except.bind, Except.toOption, Option.bind_some]
      cases pick s node with
      | some answer => rfl
      | none => cases node.parent <;> simp [pure, Except.pure]

/-- A search through a node and the statements around it asks the node first. -/
theorem findSome?_owners (pick : StmtId → Option α) (n : NodeId) : (a.owners n).findSome? pick =
    ((a.owner? n).bind pick).or ((a.ownersAbove n).findSome? pick) := by
  rw [owners, List.findSome?_append]
  cases howner : a.owner? n with
  | none => rfl
  | some s => simp

namespace WellFormed

theorem ancestors_of_parent (wf : a.WellFormed) {n p : NodeId} (h : a.Parent n p) :
    a.ancestors n = p :: a.ancestors p := by
  obtain ⟨rank, hle, hlt⟩ := wf.exists_rank_parent
  have hp := hlt n p h
  have hn := hle n
  obtain ⟨b, hb⟩ : ∃ b, a.size = b + 1 := ⟨a.size - 1, by omega⟩
  rw [ancestors, ancestors, hb, ancestorsWithin_of_parent h]
  exact congrArg _ (ancestorsWithin_eq hlt (by omega) (by omega))

theorem ownersAbove_of_parent (wf : a.WellFormed) {n p : NodeId} (h : a.Parent n p) :
    a.ownersAbove n = a.owners p := by
  rw [ownersAbove, wf.ancestors_of_parent h, owners, ownersAbove]
  cases hp : a.owner? p <;> simp [hp]

/-- Everything in the list of ancestors is above the node. -/
theorem transGen_of_mem_ancestors (wf : a.WellFormed) {n m : NodeId} (h : m ∈ a.ancestors n) :
    Relation.TransGen a.Parent n m := by
  obtain ⟨rank, -, hlt⟩ := wf.exists_rank_parent
  induction hr : rank n using Nat.strong_induction_on generalizing n with
  | _ r ih =>
    by_cases hn : ∃ p, a.Parent n p
    · obtain ⟨p, hp⟩ := hn
      rw [wf.ancestors_of_parent hp] at h
      rcases List.mem_cons.1 h with rfl | h
      · exact .single hp
      · exact .head hp (ih (rank p) (hr ▸ hlt n p hp) h rfl)
    · rw [ancestors, ancestorsWithin_of_no_parent fun p hp => hn ⟨p, hp⟩] at h
      simp at h

theorem nodup_ancestors (wf : a.WellFormed) (n : NodeId) : (a.ancestors n).Nodup := by
  obtain ⟨rank, -, hlt⟩ := wf.exists_rank_parent
  induction hr : rank n using Nat.strong_induction_on generalizing n with
  | _ r ih =>
    by_cases hn : ∃ p, a.Parent n p
    · obtain ⟨p, hp⟩ := hn
      rw [wf.ancestors_of_parent hp, List.nodup_cons]
      refine ⟨fun h => wf.acyclic p (wf.transGen_of_mem_ancestors h), ?_⟩
      exact ih (rank p) (hr ▸ hlt n p hp) p rfl
    · rw [ancestors, ancestorsWithin_of_no_parent fun p hp => hn ⟨p, hp⟩]
      exact List.nodup_nil

theorem nodup_owners (wf : a.WellFormed) (n : NodeId) : (a.owners n).Nodup := by
  rw [owners_eq]
  refine List.Nodup.filterMap (fun m m' s hm hm' => ?_) (List.nodup_cons.2 ⟨fun h => ?_, ?_⟩)
  · exact (owner?_eq_some hm).trans (owner?_eq_some hm').symm
  · exact wf.acyclic n (wf.transGen_of_mem_ancestors h)
  · exact wf.nodup_ancestors n

/-- The statements around a node in which names can be declared are not below it. -/
theorem not_below_of_mem_ownersAbove (wf : a.WellFormed) {n : NodeId} {s : StmtId}
    (h : s ∈ a.ownersAbove n) : ¬ a.Below n (.stmt s) := by
  intro hb
  obtain ⟨m, hm, hms⟩ := List.mem_filterMap.1 h
  have habove := wf.transGen_of_mem_ancestors hm
  rw [owner?_eq_some hms] at habove
  exact wf.acyclic n (habove.trans_left (wf.below_iff.1 hb))

theorem firstUpwardWithin_owners (wf : a.WellFormed) (pick : StmtId → Option α)
    {rank : NodeId → ℕ} (hlt : ∀ c p, a.Parent c p → rank p < rank c) {b : ℕ} {n : NodeId}
    (hb : rank n < b) (hn : a.contains n) :
    a.firstUpwardWithin (fun s stmt => if stmt.ownsScope then pick s else none) b n =
      .ok ((a.owners n).findSome? pick) := by
  induction b generalizing n with
  | zero => omega
  | succ b ih =>
    have above : a.onward
        (a.firstUpwardWithin (fun s stmt => if stmt.ownsScope then pick s else none) b) n =
          .ok ((a.ownersAbove n).findSome? pick) := by
      obtain ⟨q, hq⟩ := exists_parent hn
      cases q with
      | none =>
        rw [onward_of_no_parent hq, ownersAbove_of_no_parent fun p hp => by simp [Parent, hq] at hp]
        rfl
      | some p =>
        have hrank := hlt n p hq
        rw [onward_of_parent hq, wf.ownersAbove_of_parent hq]
        exact ih (by omega) (wf.contains_parent n p hq)
    rw [firstUpwardWithin_succ, answer?_owner, findSome?_owners, above]
    cases (a.owner? n).bind pick <;> rfl

/-- A search that climbs and only looks at statements in which names can be declared is a search
through these statements. -/
theorem firstUpward_owners (wf : a.WellFormed) (pick : StmtId → Option α) {n : NodeId}
    (hn : a.contains n) :
    a.firstUpward (fun s stmt => if stmt.ownsScope then pick s else none) n =
      .ok ((a.owners n).findSome? pick) := by
  obtain ⟨rank, hle, hlt⟩ := wf.exists_rank_parent
  exact wf.firstUpwardWithin_owners pick hlt (Nat.lt_succ_of_le (hle n)) hn

theorem nearestScope_eq (wf : a.WellFormed) {n : NodeId} (hn : a.contains n) :
    a.nearestScope n = .ok (a.owners n).head? := by
  rw [nearestScope, wf.firstUpward_owners some hn]
  cases a.owners n <;> rfl

end WellFormed
end ExprTyping.Arena
