import ExprTyping.Proofs.Arena.Check
import ExprTyping.Proofs.Arena.Climb
import ExprTyping.Tree.Basic

/-!
# Looking up a name from a node

A climb is a recursion along the parents: it takes the answer of the node or goes on at its parent
(`Arena.firstUpward_eq`). Where no node is above itself it ends, whether or not all parents are
nodes, and the bound of the climb plays no role.

So `Tree.definitionNamed?` takes what the node itself declares under the name, or what is found from
the parent (`Tree.definitionNamed?_eq`). To look at the nearest scope first and to start again from
the parent of its owner is the same (`Tree.definitionNamed?_eq_outward`).

A recorded definition changes what one node declares under one name. It is found from where this
node is exposed: the way up leads to it past nodes that do not declare the name
(`Tree.definitionNamed?_recordDefinition`).
-/

namespace ExprTyping

open Relation (ReflTransGen TransGen)

namespace Arena

variable {a : Arena} {α β : Type} {pick : StmtId → StmtNode → Option α} {n p : NodeId}

/-! ## Climbs that end -/

/-- Every way up ends. -/
theorem wellFounded_parent (acyclic : ∀ n, ¬ TransGen a.Parent n n) :
    WellFounded fun p c => a.Parent c p := by
  obtain ⟨rank, -, hlt⟩ := exists_rank_parent acyclic
  exact Subrelation.wf (fun {p c} hp => hlt c p hp) (InvImage.wf rank Nat.lt_wfRel.wf)

theorem parent_ne_endless (n : NodeId) : a.parent n ≠ .error .endless := by
  intro h
  cases n with
  | expr e =>
    rw [parent, expr] at h
    cases hnode : a.exprs[e.index]? <;> rw [hnode] at h <;> cases h
  | stmt s =>
    rw [parent, stmt] at h
    cases hnode : a.stmts[s.index]? <;> rw [hnode] at h <;> cases h

theorem onward_bind (climb : NodeId → Except Fault (Option α))
    (next : Option α → Except Fault (Option β)) (h : next none = .ok none) :
    a.onward climb n >>= next = a.onward (fun p => climb p >>= next) n := by
  rw [onward, onward]
  cases a.parent n with
  | error fault => rfl
  | ok q =>
    cases q with
    | none => exact h
    | some p => rfl

theorem onward_ne_endless {climb : NodeId → Except Fault (Option α)}
    (h : ∀ p, a.Parent n p → climb p ≠ .error .endless) : a.onward climb n ≠ .error .endless := by
  intro hendless
  rw [onward] at hendless
  cases hn : a.parent n with
  | error fault =>
    rw [hn] at hendless
    cases hendless
    exact parent_ne_endless n hn
  | ok q =>
    rw [hn] at hendless
    cases q with
    | none => cases hendless
    | some p => exact h p hn hendless

/-- A bound that is not met makes no difference. -/
theorem firstUpwardWithin_eq {rank : NodeId → ℕ} (hlt : ∀ c p, a.Parent c p → rank p < rank c)
    {bound bound' : ℕ} (hbound : rank n < bound) (hbound' : rank n < bound') :
    a.firstUpwardWithin pick bound n = a.firstUpwardWithin pick bound' n := by
  induction bound generalizing n bound' with
  | zero => omega
  | succ bound ih =>
    obtain ⟨bound', rfl⟩ : ∃ c, bound' = c + 1 := ⟨bound' - 1, by omega⟩
    rw [firstUpwardWithin_succ, firstUpwardWithin_succ]
    cases a.answer? pick n with
    | some answer => rfl
    | none =>
      refine onward_congr fun p hp => ?_
      have hrank := hlt n p hp
      exact ih (by omega) (by omega)

variable (acyclic : ∀ n, ¬ TransGen a.Parent n n)
include acyclic

theorem firstUpward_eq (n : NodeId) : a.firstUpward pick n =
    match a.answer? pick n with
    | some answer => .ok (some answer)
    | none => a.onward (a.firstUpward pick) n := by
  obtain ⟨rank, hle, hlt⟩ := exists_rank_parent acyclic
  rw [firstUpward, firstUpwardWithin_succ]
  cases a.answer? pick n with
  | some answer => rfl
  | none =>
    refine onward_congr fun p hp => ?_
    have hrank := hlt n p hp
    have hsize := hle n
    exact firstUpwardWithin_eq hlt (by omega) (by omega)

theorem firstUpward_ne_endless (n : NodeId) : a.firstUpward pick n ≠ .error .endless := by
  induction n using (wellFounded_parent acyclic).induction with
  | _ n ih =>
    rw [firstUpward_eq acyclic]
    cases a.answer? pick n with
    | some answer => simp
    | none => exact onward_ne_endless ih

end Arena

namespace Tree

variable {t : Tree} {s : StmtId} {d : Definition} {n p : NodeId} {x : String}

/-! ## Declarations -/

/-- What a node itself declares under a name. -/
def declared? (t : Tree) (x : String) (n : NodeId) : Option Definition :=
  (t.arena.owner? n).bind fun s => (t.notes.scope s).find? x

section

variable (acyclic : ∀ n, ¬ TransGen t.arena.Parent n n)
include acyclic

theorem definitionNamed?_eq (n : NodeId) (x : String) : t.definitionNamed? n x =
    match t.declared? x n with
    | some d => .ok (some d)
    | none => t.arena.onward (t.definitionNamed? · x) n := by
  rw [definitionNamed?, Arena.firstUpward_eq acyclic, Arena.answer?_owner]
  rw [declared?]
  cases (t.arena.owner? n).bind _ <;> rfl

/-- What is found in the nearest scope, or else from the parent of its owner. -/
def lookUpIn (t : Tree) (x : String) (owner : Option StmtId) :
    Except Fault (Option Definition) :=
  match owner with
  | none => .ok none
  | some s =>
    match t.declared? x (.stmt s) with
    | some d => .ok (some d)
    | none => t.arena.onward (t.definitionNamed? · x) (.stmt s)

/-- The same in two loops: the inner one looks for the nearest scope, and the outer one looks into
it and starts again from the parent of its owner. -/
theorem definitionNamed?_eq_outward (n : NodeId) (x : String) :
    t.definitionNamed? n x = t.arena.nearestScope n >>= t.lookUpIn x := by
  induction n using (Arena.wellFounded_parent acyclic).induction with
  | _ n ih =>
    rw [definitionNamed?_eq acyclic, Arena.nearestScope, Arena.firstUpward_eq acyclic,
      Arena.answer?_owner]
    cases howner : t.arena.owner? n with
    | some owner =>
      obtain rfl := Arena.owner?_eq_some howner
      rfl
    | none =>
      have hnone : t.declared? x n = none := by rw [declared?, howner, Option.bind_none]
      rw [hnone, Option.bind_none]
      dsimp only
      rw [Arena.onward_congr ih]
      exact (Arena.onward_bind _ (t.lookUpIn x) rfl).symm

end

/-! ## Recording a definition -/

theorem scope?_of_owns (howns : t.arena.owns s = true) :
    t.scope? s = .ok (some (t.notes.scope s)) := by
  cases hs : t.arena.stmt s with
  | error fault => rw [Arena.owns, hs] at howns; cases howns
  | ok node =>
    rw [Arena.owns_eq hs] at howns
    rw [scope?, hs]
    show Except.ok (if node.ownsScope then some _ else none) = _
    rw [if_pos howns]

theorem scope?_of_not_owns (hs : t.contains (.stmt s)) (howns : t.arena.owns s = false) :
    t.scope? s = .ok none := by
  obtain ⟨node, hs⟩ := Arena.exists_stmt hs
  rw [Arena.owns_eq hs] at howns
  rw [scope?, hs]
  show Except.ok (if node.ownsScope then some _ else none) = _
  rw [howns]
  rfl

/-- The tree in which `d` is recorded as a definition of `s`. -/
def recording (t : Tree) (s : StmtId) (d : Definition) : Tree :=
  { t with notes := t.notes.record s d }

theorem recordDefinition_of_owns (howns : t.arena.owns s = true) :
    t.recordDefinition s d = .ok (t.recording s d, true) := by
  rw [recordDefinition, scope?_of_owns howns]
  rfl

theorem recordDefinition_of_not_owns (hs : t.contains (.stmt s))
    (howns : t.arena.owns s = false) : t.recordDefinition s d = .ok (t, false) := by
  rw [recordDefinition, scope?_of_not_owns hs howns]
  rfl

/-- Of all declarations, one changes. -/
theorem declared?_recording (howns : t.arena.owns s = true) (x : String) (n : NodeId) :
    (t.recording s d).declared? x n =
      if n = .stmt s ∧ x = d.name then some d else t.declared? x n := by
  have harena : (t.recording s d).arena = t.arena := rfl
  have hscope (owner : StmtId) : (t.recording s d).notes.scope owner =
      if s = owner then (t.notes.scope s).record d else t.notes.scope owner :=
    t.notes.scope_setScope s owner _
  rw [declared?, declared?, harena]
  cases howner : t.arena.owner? n with
  | none =>
    have hne : n ≠ .stmt s := by
      rintro rfl
      rw [Arena.owner?, if_pos howns] at howner
      cases howner
    rw [if_neg fun h => hne h.1, Option.bind_none, Option.bind_none]
  | some owner =>
    obtain rfl := Arena.owner?_eq_some howner
    simp only [Option.bind_some, hscope, NodeId.stmt.injEq]
    by_cases hs : s = owner
    · subst hs
      by_cases hx : x = d.name
      · simp [hx, Scope.find?_record_self]
      · simp [hx, Scope.find?_record_of_ne hx]
    · simp [hs, Ne.symm hs]

/-! ## From where a definition is found -/

/-- What the statement `s` declares under the name is found from `n`: the way up leads to `s`, and
no node before it declares the name. -/
def Exposes (t : Tree) (s : StmtId) (n : NodeId) (x : String) : Prop :=
  ReflTransGen t.arena.Parent n (.stmt s) ∧ ∀ m, ReflTransGen t.arena.Parent n m →
    TransGen t.arena.Parent m (.stmt s) → t.declared? x m = none

theorem Exposes.of_parent (h : t.Exposes s p x) (hp : t.arena.Parent n p)
    (hnone : t.declared? x n = none) : t.Exposes s n x := by
  refine ⟨h.1.head hp, fun m hm habove => ?_⟩
  rcases hm.cases_head with rfl | ⟨q, hq, hm⟩
  · exact hnone
  · obtain rfl := hp.unique hq
    exact h.2 m hm habove

/-- From another node than `s` the way goes on at the parent. -/
theorem Exposes.exists_parent (h : t.Exposes s n x) (hne : n ≠ .stmt s) :
    t.declared? x n = none ∧ ∃ p, t.arena.Parent n p ∧ t.Exposes s p x := by
  rcases h.1.cases_head with heq | ⟨p, hp, hup⟩
  · exact absurd heq hne
  · exact ⟨h.2 n .refl (.head' hp hup), p, hp, hup, fun m hm => h.2 m (hm.head hp)⟩

section

variable (acyclic : ∀ n, ¬ TransGen t.arena.Parent n n)
include acyclic

theorem exposes_self (s : StmtId) (x : String) : t.Exposes s (.stmt s) x :=
  ⟨.refl, fun m hm habove => absurd (habove.trans_left hm) (acyclic m)⟩

theorem definitionNamed?_of_exposes (howns : t.arena.owns s = true)
    (h : t.Exposes s n d.name) :
    (t.recording s d).definitionNamed? n d.name = .ok (some d) := by
  induction n using (Arena.wellFounded_parent acyclic).induction with
  | _ n ih =>
    rw [definitionNamed?_eq (t := t.recording s d) acyclic, declared?_recording howns]
    by_cases hn : n = .stmt s
    · rw [if_pos ⟨hn, rfl⟩]
    · obtain ⟨hnone, p, hp, hexposes⟩ := h.exists_parent hn
      rw [if_neg fun h => hn h.1, hnone]
      exact (Arena.onward_of_parent hp).trans (ih p hp hexposes)

theorem definitionNamed?_of_not_exposes (howns : t.arena.owns s = true)
    (h : ¬ (x = d.name ∧ t.Exposes s n x)) :
    (t.recording s d).definitionNamed? n x = t.definitionNamed? n x := by
  induction n using (Arena.wellFounded_parent acyclic).induction with
  | _ n ih =>
    have hn : ¬ (n = .stmt s ∧ x = d.name) := by
      rintro ⟨rfl, hx⟩
      exact h ⟨hx, exposes_self acyclic s x⟩
    rw [definitionNamed?_eq (t := t.recording s d) acyclic, definitionNamed?_eq acyclic,
      declared?_recording howns, if_neg hn]
    cases hnone : t.declared? x n with
    | some other => rfl
    | none =>
      refine Arena.onward_congr fun p hp => ih p hp ?_
      rintro ⟨hx, hexposes⟩
      exact h ⟨hx, hexposes.of_parent hp hnone⟩

/-- A definition that is recorded in a statement with a scope is found under its name from the
statement and from every node whose way up leads to it past nodes that do not declare the name. All
other look-ups find what they found before, and none runs for ever. In a statement without a scope
nothing is recorded and nothing changes. -/
theorem definitionNamed?_recordDefinition (s : StmtId) (d : Definition) :
    (t.arena.owns s = true → ∃ t', t.recordDefinition s d = .ok (t', true) ∧ ∀ n x,
      t'.definitionNamed? n x ≠ .error .endless ∧
      (x = d.name ∧ t.Exposes s n x → t'.definitionNamed? n x = .ok (some d)) ∧
      (¬ (x = d.name ∧ t.Exposes s n x) → t'.definitionNamed? n x = t.definitionNamed? n x)) ∧
    (t.contains (.stmt s) → t.arena.owns s = false → t.recordDefinition s d = .ok (t, false)) := by
  refine ⟨fun howns => ⟨_, recordDefinition_of_owns howns, fun n x => ⟨?_, ?_, ?_⟩⟩,
    recordDefinition_of_not_owns⟩
  · exact Arena.firstUpward_ne_endless (a := t.arena) acyclic n
  · rintro ⟨rfl, hexposes⟩
    exact definitionNamed?_of_exposes acyclic howns hexposes
  · exact definitionNamed?_of_not_exposes acyclic howns

end

/-- `{ for x in xs { x } }`, where the loop declares its `x`. -/
def loopInBlock : Tree where
  arena.exprs := #[
    { kind := .identifier "xs", parent := some (.stmt ⟨2⟩) },
    { kind := .identifier "x", parent := some (.stmt ⟨0⟩) }]
  arena.stmts := #[
    { kind := .expressions [⟨1⟩], parent := some ⟨1⟩, ownsScope := false },
    { kind := .block [⟨0⟩], parent := some ⟨2⟩, ownsScope := true },
    { kind := .forIn (.identifier "x") ⟨0⟩ ⟨1⟩, parent := some ⟨3⟩, ownsScope := true },
    { kind := .block [⟨2⟩], ownsScope := true }]
  notes := ({} : Notes).record ⟨2⟩ ⟨"x", .int⟩

/-- In the outer block a `y` is recorded and an `x`. From the body of the loop the `y` is found, and
still the `x` of the loop. -/
theorem definitionNamed?_recordDefinition_loop :
    (∃ t', loopInBlock.recordDefinition ⟨3⟩ ⟨"y", .bool⟩ = .ok (t', true) ∧
      t'.definitionNamed? (.expr ⟨1⟩) "y" = .ok (some ⟨"y", .bool⟩)) ∧
    ∃ t', loopInBlock.recordDefinition ⟨3⟩ ⟨"x", .bool⟩ = .ok (t', true) ∧
      t'.definitionNamed? (.stmt ⟨3⟩) "x" = .ok (some ⟨"x", .bool⟩) ∧
      t'.definitionNamed? (.expr ⟨1⟩) "x" = .ok (some ⟨"x", .int⟩) := by
  have acyclic : ∀ n, ¬ TransGen loopInBlock.arena.Parent n n :=
    (Arena.wellFormed_of_check (by decide)).acyclic
  have statement : loopInBlock.arena.Parent (.expr ⟨1⟩) (.stmt ⟨0⟩) := rfl
  have body : loopInBlock.arena.Parent (.stmt ⟨0⟩) (.stmt ⟨1⟩) := rfl
  have loop : loopInBlock.arena.Parent (.stmt ⟨1⟩) (.stmt ⟨2⟩) := rfl
  have inside : ReflTransGen loopInBlock.arena.Parent (.expr ⟨1⟩) (.stmt ⟨2⟩) :=
    ((ReflTransGen.single statement).tail body).tail loop
  have outside : loopInBlock.arena.Parent (.stmt ⟨2⟩) (.stmt ⟨3⟩) := rfl
  have hy : loopInBlock.Exposes ⟨3⟩ (.expr ⟨1⟩) "y" := by
    refine ⟨inside.tail outside, fun m _ _ => ?_⟩
    rw [declared?, Option.bind_eq_none_iff]
    intro owner _
    rw [loopInBlock, Notes.record, Notes.scope_setScope]
    split_ifs <;> rfl
  have hx : ¬ ("x" = "x" ∧ loopInBlock.Exposes ⟨3⟩ (.expr ⟨1⟩) "x") := by
    rintro ⟨-, -, hnone⟩
    cases hnone (.stmt ⟨2⟩) inside (.single outside)
  obtain ⟨t', hrecorded, hfound⟩ :=
    (definitionNamed?_recordDefinition acyclic ⟨3⟩ ⟨"y", .bool⟩).1 rfl
  obtain ⟨t'', hrecorded', hfound'⟩ :=
    (definitionNamed?_recordDefinition acyclic ⟨3⟩ ⟨"x", .bool⟩).1 rfl
  refine ⟨⟨t', hrecorded, (hfound _ _).2.1 ⟨rfl, hy⟩⟩, t'', hrecorded', ?_, ?_⟩
  · exact (hfound' _ _).2.1 ⟨rfl, exposes_self acyclic _ _⟩
  · exact ((hfound' _ _).2.2 hx).trans rfl

end Tree
end ExprTyping
