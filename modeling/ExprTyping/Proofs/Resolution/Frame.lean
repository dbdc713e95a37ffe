import ExprTyping.Proofs.Arena.Check
import ExprTyping.Proofs.Resolution.Run
import ExprTyping.Proofs.Visit.Totality

/-!
# What a resolution leaves as it was

A resolver never changes the arena. From a root it changes notes below the root only, with one
exception: if no names can be declared in the root, the variables that are declared around it
(`Arena.declaredAround`) go to the innermost scope outside. From an expression it changes no scope
at all. Diagnostics are only added, and a node that the tree does not have is reported before
anything is done.

The purge stays below the root (`Resolver.purge_changes`), the visit stays in the root's footprint
(`Setting.succeeds_visitStmt`), and one follows the other.

Main statement: `Resolver.resolution_frame`.
-/

namespace ExprTyping

theorem Scope.find?_foldl_record (ds : List Definition) (scope : Scope) (name : String) :
    (ds.foldl record scope).find? name =
      (ds.reverse.find? fun d => d.name == name).or (scope.find? name) := by
  induction ds generalizing scope with
  | nil => rfl
  | cons d rest ih =>
    rw [List.foldl_cons, ih, List.reverse_cons, List.find?_append, Option.or_assoc]
    by_cases h : name = d.name
    · subst h
      simp [find?_record_self]
    · simp [find?_record_of_ne h, Ne.symm h]

namespace Resolver

variable {t t' : Tree} {root : StmtId} {e : ExprId}

/-- What typing the program at `root` may change: the notes below it and, if no names can be
declared in it, the scope around it. -/
structure TypesWithin (t t' : Tree) (root : StmtId) : Prop where
  arena : t'.arena = t.arena
  exprs : ∀ e, ¬ t.arena.Below (.stmt root) (.expr e) → t'.notes.expr e = t.notes.expr e
  scopes : ∀ s, ¬ t.arena.Below (.stmt root) (.stmt s) →
    ¬ (t.arena.owns root = false ∧ (t.arena.ownersAbove (.stmt root)).head? = some s) →
    t'.notes.scope s = t.notes.scope s
  outer : t.arena.owns root = false → ∀ s, (t.arena.ownersAbove (.stmt root)).head? = some s →
    t'.notes.scope s = (t.arena.declaredAround root).foldl Scope.record (t.notes.scope s)
  names : t.arena.owns root = false → ∀ s, (t.arena.ownersAbove (.stmt root)).head? = some s →
    ∀ name, (t'.notes.scope s).find? name =
      ((t.arena.declaredAround root).reverse.find? fun d => d.name == name).or
        ((t.notes.scope s).find? name)
  declared : ∀ d, d ∈ t.arena.declaredAround root ↔
    ∃ v, t.arena.OpenWay root v ∧ t.arena.DeclaresIn v d

/-- What typing the expression `e` may change: the notes below it. -/
structure AnnotatesWithin (t t' : Tree) (e : ExprId) : Prop where
  arena : t'.arena = t.arena
  exprs : ∀ x, ¬ t.arena.Below (.expr e) (.expr x) → t'.notes.expr x = t.notes.expr x
  scopes : ∀ s, t'.notes.scope s = t.notes.scope s

/-- The resolver is the same, with more diagnostics. -/
def Appends (r r' : Resolver) : Prop :=
  ∃ new, r' = { r with diagnostics := r.diagnostics ++ new }

/-- The tree and the resolver after a call: what it gives, or what was there if it gives nothing. -/
def after (r : Resolver) (t : Tree) (result : Except ResolveError (Tree × Resolver)) :
    Tree × Resolver :=
  result.toOption.getD (t, r)

/-! ## From the footprint of a visit -/

theorem purge_changes (wf : t.arena.WellFormed) (hroot : t.contains (.stmt root)) (r : Resolver) :
    ∃ notes, r.purge t root = .ok notes ∧ (t.arena.footprint (.stmt root)).Changes []
      ⟨t.notes, r.diagnostics⟩ ⟨notes, r.diagnostics⟩ := by
  obtain ⟨notes, hpurge, purged⟩ := purge_purged wf hroot r
  refine ⟨notes, hpurge, purged.expr_frame, fun s hs => ?_, List.prefix_rfl⟩
  simpa using purged.scope_frame s hs

theorem appends_of_prefix {r : Resolver} {diagnostics : List Diagnostic}
    (h : r.diagnostics <+: diagnostics) : r.Appends { r with diagnostics } := by
  obtain ⟨new, hnew⟩ := h
  exact ⟨new, by rw [hnew]⟩

theorem typesWithin_of_changes (wf : t.arena.WellFormed) (hroot : t.contains (.stmt root))
    {p q : Progress} (hp : p.notes = t.notes)
    (h : (t.arena.footprint (.stmt root)).Changes (t.arena.declaredAround root) p q) :
    TypesWithin t { t with notes := q.notes } root := by
  have outer : t.arena.owns root = false → ∀ s,
      (t.arena.ownersAbove (.stmt root)).head? = some s →
      q.notes.scope s = (t.arena.declaredAround root).foldl Scope.record (t.notes.scope s) := by
    intro howns s hs
    have outside : ¬ t.arena.Below (.stmt root) (.stmt s) :=
      wf.not_below_of_mem_ownersAbove (List.mem_of_mem_head? hs)
    have howner : (t.arena.footprint (.stmt root)).owner = some s := by
      rw [Arena.footprint, Arena.owners_of_not_owns howns, hs]
    rw [h.scope_frame s outside, if_pos howner, hp]
  exact {
    arena := rfl
    exprs := fun e he => by rw [← hp]; exact h.expr_frame e he
    scopes := fun s outside other => by
      have howner : (t.arena.footprint (.stmt root)).owner ≠ some s := by
        cases howns : t.arena.owns root with
        | false =>
          rw [Arena.footprint, Arena.owners_of_not_owns howns]
          exact fun hs => other ⟨howns, hs⟩
        | true =>
          rw [Arena.footprint, Arena.owners_of_owns howns]
          rintro ⟨⟩
          exact outside (.refl _)
      have hframe := h.scope_frame s outside
      rwa [if_neg howner, hp] at hframe
    outer
    names := fun howns s hs name => by
      rw [← Scope.find?_foldl_record, ← outer howns s hs]
    declared := fun d => wf.mem_declaredAround_iff hroot }

theorem resolveTypes_within (wf : t.arena.WellFormed) (hroot : t.contains (.stmt root))
    (r : Resolver) : ∃ t' r', r.resolveTypes t root = .ok (t', r') ∧
      TypesWithin t t' root ∧ r.Appends r' := by
  obtain ⟨notes, hpurge, hpurged⟩ := purge_changes wf hroot r
  obtain ⟨_, q, hrun, hvisited, -⟩ := Setting.succeeds_visitStmt (s := r.setting t.arena) wf hroot
    ⟨notes, r.diagnostics⟩
  have h := hpurged.trans hvisited
  refine ⟨{ t with notes := q.notes }, { r with diagnostics := q.diagnostics }, ?_,
    typesWithin_of_changes wf hroot rfl h, appends_of_prefix h.diagnostics⟩
  rw [resolveTypes, if_pos hroot, hpurge]
  simp only [run, hrun]
  rfl

theorem resolveType_within (wf : t.arena.WellFormed) (he : t.contains (.expr e)) (r : Resolver) :
    ∃ type t' r', r.resolveType t e = .ok (type, t', r') ∧
      AnnotatesWithin t t' e ∧ r.Appends r' := by
  obtain ⟨type, q, hrun, h, -⟩ := Setting.succeeds_visitExpr (s := r.setting t.arena) wf he
    ⟨t.notes, r.diagnostics⟩
  refine ⟨type, { t with notes := q.notes }, { r with diagnostics := q.diagnostics }, ?_,
    ⟨rfl, h.expr_frame, fun s => ?_⟩, appends_of_prefix h.diagnostics⟩
  · rw [resolveType, if_pos he, run, hrun]
  · have outside : ¬ t.arena.Below (.expr e) (.stmt s) := fun hs => by
      obtain ⟨x, hx⟩ := hs.of_expr
      cases hx
    simpa using h.scope_frame s outside

/-! ## Both calls -/

/-- A resolution from a root leaves everything as it was that is not below the root, but for the
variables that go to the innermost scope around it; a resolution of an expression leaves everything
that is not below the expression, and all scopes. Both only add diagnostics. If they report that a
node is unknown, the tree does not have it, and nothing has changed. -/
theorem resolution_frame (wf : t.arena.WellFormed) (r : Resolver) :
    (∀ root, t.contains (.stmt root) → ∃ t' r', r.resolveTypes t root = .ok (t', r') ∧
      TypesWithin t t' root ∧ r.Appends r') ∧
    (∀ e, t.contains (.expr e) → ∃ type t' r', r.resolveType t e = .ok (type, t', r') ∧
      AnnotatesWithin t t' e ∧ r.Appends r') ∧
    (∀ root n, r.resolveTypes t root = .error (.unknownNode n) →
      n = .stmt root ∧ ¬ t.contains (.stmt root) ∧ r.after t (r.resolveTypes t root) = (t, r)) ∧
    (∀ e n, r.resolveType t e = .error (.unknownNode n) →
      n = .expr e ∧ ¬ t.contains (.expr e) ∧
        r.after t ((r.resolveType t e).map Prod.snd) = (t, r)) := by
  refine ⟨fun root hroot => resolveTypes_within wf hroot r,
    fun e he => resolveType_within wf he r, fun root n hunknown => ?_, fun e n hunknown => ?_⟩
  · by_cases hroot : t.contains (.stmt root) = true
    · obtain ⟨t', r', hrun, -⟩ := resolveTypes_within wf hroot r
      rw [hrun] at hunknown
      cases hunknown
    · have hmissing : r.resolveTypes t root = .error (.unknownNode (.stmt root)) := if_neg hroot
      rw [hmissing] at hunknown ⊢
      cases hunknown
      exact ⟨rfl, hroot, rfl⟩
  · by_cases he : t.contains (.expr e) = true
    · obtain ⟨type, t', r', hrun, -⟩ := resolveType_within wf he r
      rw [hrun] at hunknown
      cases hunknown
    · have hmissing : r.resolveType t e = .error (.unknownNode (.expr e)) := if_neg he
      rw [hmissing] at hunknown ⊢
      cases hunknown
      exact ⟨rfl, he, rfl⟩

/-- `{ if x { var y: int } else var x: bool }` -/
def leaking : Tree where
  arena := {
    exprs := #[⟨.identifier "x", some (.stmt ⟨3⟩)⟩]
    stmts := #[
      ⟨.variables [⟨"y", .int, none, false⟩], some ⟨1⟩, false⟩,
      ⟨.block [⟨0⟩], some ⟨3⟩, true⟩,
      ⟨.variables [⟨"x", .bool, none, false⟩], some ⟨3⟩, false⟩,
      ⟨.conditional ⟨0⟩ ⟨1⟩ (some ⟨2⟩), some ⟨4⟩, false⟩,
      ⟨.block [⟨3⟩], none, true⟩] }

/-- From the conditional, the second branch declares its variable in the block around it, and the
first, a block of its own, does not. -/
theorem resolution_frame_leaking :
    leaking.arena.WellFormed ∧ leaking.contains (.stmt ⟨3⟩) ∧
      ∃ t' r', resolveTypes { catalog := {} } leaking ⟨3⟩ = .ok (t', r') ∧
        TypesWithin leaking t' ⟨3⟩ ∧ (t'.notes.scope ⟨4⟩).definitions = [⟨"x", .bool⟩] := by
  have wf : leaking.arena.WellFormed := Arena.wellFormed_of_check (by decide)
  have hroot : leaking.contains (.stmt ⟨3⟩) := by rfl
  obtain ⟨hruns, -⟩ := resolution_frame wf { catalog := {} }
  obtain ⟨t', r', hrun, hwithin, -⟩ := hruns ⟨3⟩ hroot
  refine ⟨wf, hroot, t', r', hrun, hwithin, ?_⟩
  rw [hwithin.outer rfl ⟨4⟩ rfl]
  rfl

end Resolver
end ExprTyping
