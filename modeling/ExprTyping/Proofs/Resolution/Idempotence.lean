import ExprTyping.Proofs.Arena.Check
import ExprTyping.Proofs.Lexical.Redeclaration
import ExprTyping.Proofs.Resolution.Run

/-!
# Resolving the same program again

A run forgets what is noted below its root, but a root without a scope of its own declares its
variables in a scope around it, and there they stay. So a second run may find more names declared
than the first (`Resolver.resolveTypes_not_idempotent`): in `{ while x var x: bool }`, resolved from
the loop, the condition is unknown at first and then has the variable's type.

`Resolver.resolveTypes_stabilizes` says how far resolving is idempotent nevertheless.

* The first run completes the scopes around the root: no later run from there changes them.
* So every run after the second repeats the second.
* The second repeats the first if the root has a scope, or if the variables that the first declared
  around the root change nothing for the names that the program mentions.
-/

namespace ExprTyping

/-- The trees have the same nodes, and the same is noted and declared in them. -/
structure Tree.Agree (t t' : Tree) : Prop where
  arena : t'.arena = t.arena
  expr : ∀ e, t'.notes.expr e = t.notes.expr e
  scope? : ∀ s, t'.scope? s = t.scope? s

namespace Resolver

variable {r r₁ r₂ : Resolver} {t t₁ t₂ : Tree} {root : StmtId} {o : Outcome} {env : Env}

/-- What the walk leaves of the scopes around the root: the variables that the root's program
declares around itself are added. -/
theorem reference_env (r : Resolver) (t : Tree) (root : StmtId) :
    (r.reference t t.arena.opens root).2 =
      (t.arena.framesAbove t.notes (.stmt root)).declare
        ((t.arena.program root).declares t.arena.opens) :=
  Lexicon.walk_env ..

namespace Leaves

/-- After a run, the walk of the next leaves the scopes around the root as they are. -/
theorem reference_env_again
    (h : Leaves r r₁ t t₁ root o (r.reference t t.arena.opens root).2) :
    (r₁.reference t₁ t₁.arena.opens root).2 = t₁.arena.framesAbove t₁.notes (.stmt root) := by
  rw [reference_env, h.arena, h.frames, reference_env, Env.declare_declare]

theorem lexicon (h : Leaves r r₁ t t₁ root o env) : r₁.lexicon = r.lexicon := by
  rw [h.settings]
  rfl

theorem skipsResolved (h : Leaves r r₁ t t₁ root o env) : r₁.skipsResolved = r.skipsResolved := by
  rw [h.settings]

theorem contains (h : Leaves r r₁ t t₁ root o env) (hroot : t.contains (.stmt root)) :
    t₁.contains (.stmt root) := by
  rw [Tree.contains, h.arena]
  exact hroot

/-- A run after which another follows. -/
theorem exists_next (h : Leaves r r₁ t t₁ root o env) (hmode : r.skipsResolved = false)
    (wf : t.arena.WellFormed) (hroot : t.contains (.stmt root)) :
    ∃ t₂ r₂, r₁.resolveTypes t₁ root = .ok (t₂, r₂) ∧ Leaves r₁ r₂ t₁ t₂ root
      (r₁.reference t₁ t₁.arena.opens root).1 (r₁.reference t₁ t₁.arena.opens root).2 :=
  run_leaves (h.arena ▸ wf) (h.contains hroot)
    (restorable_of_not_skips (h.skipsResolved.trans hmode))

/-- A run that follows the walk of the run before it, and leaves the scopes around the root as they
are, changes nothing. -/
theorem agree_again (h : Leaves r r₁ t t₁ root (r.reference t t.arena.opens root).1 env)
    (h' : Leaves r₁ r₂ t₁ t₂ root (r.reference t t.arena.opens root).1
      (t₁.arena.framesAbove t₁.notes (.stmt root)))
    (wf : t.arena.WellFormed) (hroot : t.contains (.stmt root)) : t₁.Agree t₂ := by
  have houtside := h'.agreeOutside rfl
  refine ⟨h'.arena, fun e => ?_, fun s => ?_⟩
  · by_cases he : t.arena.Below (.stmt root) (.expr e)
    · exact h'.note_of_noteOn? (h.note_of_below wf hroot he)
    · exact houtside.expr e (h.arena ▸ he)
  · by_cases hs : t.arena.Below (.stmt root) (.stmt s)
    · refine Tree.scope?_congr h'.arena fun howns => ?_
      rw [h.arena] at howns
      obtain ⟨scope, hscope⟩ := exists_scope wf hroot r hs howns
      rw [h'.scope _ hscope, h.scope _ hscope]
    · exact houtside.scope? s (h.arena ▸ hs)

/-- The next run follows the same walk, if the names that the program mentions mean the same around
the root as before. -/
theorem reference_again (h : Leaves r r₁ t t₁ root o env) (wf : t.arena.WellFormed)
    (hroot : t.contains (.stmt root))
    (hnames : ∀ name, t.arena.Mentions (.stmt root) name →
      Env.find? (t₁.arena.framesAbove t₁.notes (.stmt root)) name =
        Env.find? (t.arena.framesAbove t.notes (.stmt root)) name) :
    (r₁.reference t₁ t₁.arena.opens root).1 = (r.reference t t.arena.opens root).1 := by
  rw [Resolver.reference, Resolver.reference, h.lexicon]
  rw [h.arena] at hnames ⊢
  refine r.lexicon.walk_congr (wf.holds_program hroot) ?_ {} ⟨hnames, ?_⟩
  · rw [Arena.program_id]
    exact fun _ => id
  · simp only [Arena.framesAbove, List.map_eq_nil_iff]

end Leaves

/-- Three runs from one root, one after another. Only the first may change the scopes around the
root, and the third repeats the second. The second repeats the first, if the root has a scope or the
names that the program mentions mean the same around the root before and after the first. -/
theorem resolveTypes_stabilizes (hmode : r.skipsResolved = false) (wf : t.arena.WellFormed)
    (hroot : t.contains (.stmt root)) :
    ∃ t₁ r₁ t₂ r₂ t₃ r₃ reported again, r.resolveTypes t root = .ok (t₁, r₁) ∧
      r₁.resolveTypes t₁ root = .ok (t₂, r₂) ∧ r₂.resolveTypes t₂ root = .ok (t₃, r₃) ∧
      r₁.diagnostics = r.diagnostics ++ reported ∧ r₂.diagnostics = r₁.diagnostics ++ again ∧
      r₃.diagnostics = r₂.diagnostics ++ again ∧
      t₁.AgreeOutside t₂ root ∧ t₂.Agree t₃ ∧
      ((t.arena.owns root = true ∨ ∀ name, t.arena.Mentions (.stmt root) name →
          Env.find? (t₁.arena.framesAbove t₁.notes (.stmt root)) name =
            Env.find? (t.arena.framesAbove t.notes (.stmt root)) name) →
        t₁.Agree t₂ ∧ again = reported) := by
  obtain ⟨t₁, r₁, hrun₁, h₁⟩ := run_leaves wf hroot (restorable_of_not_skips hmode)
  obtain ⟨t₂, r₂, hrun₂, h₂⟩ := h₁.exists_next hmode wf hroot
  have hmode₁ := h₁.skipsResolved.trans hmode
  have hroot₁ := h₁.contains hroot
  have wf₁ : t₁.arena.WellFormed := h₁.arena ▸ wf
  obtain ⟨t₃, r₃, hrun₃, h₃⟩ := h₂.exists_next hmode₁ wf₁ hroot₁
  have hmode₂ := h₂.skipsResolved.trans hmode₁
  -- the second run leaves the scopes around the root as it found them: the third starts there too
  have henv := h₁.reference_env_again
  have houtside := h₂.agreeOutside henv
  have href := houtside.reference_eq wf₁ h₂.lexicon
  have henv' := h₂.reference_env_again
  rw [href] at h₃
  rw [href] at henv'
  rw [henv'] at h₃
  refine ⟨t₁, r₁, t₂, r₂, t₃, r₃, _, _, hrun₁, hrun₂, hrun₃, h₁.diagnostics hmode,
    h₂.diagnostics hmode₁, h₃.diagnostics hmode₂, houtside, h₂.agree_again h₃ wf₁ hroot₁,
    fun hrepeats => ?_⟩
  have hnames : ∀ name, t.arena.Mentions (.stmt root) name →
      Env.find? (t₁.arena.framesAbove t₁.notes (.stmt root)) name =
        Env.find? (t.arena.framesAbove t.notes (.stmt root)) name := by
    rcases hrepeats with howns | hnames
    · intro name _
      rw [h₁.arena, h₁.frames, reference_env_of_owns wf hroot howns]
    · exact hnames
  have hsame := h₁.reference_again wf hroot hnames
  rw [hsame, henv] at h₂
  exact ⟨h₁.agree_again h₂ wf hroot, by rw [hsame]⟩

/-- `{ while x var x: bool }` -/
def selfDeclaring : Tree where
  arena := {
    exprs := #[⟨.identifier "x", some (.stmt ⟨1⟩)⟩]
    stmts := #[
      ⟨.variables [⟨"x", .bool, none, false⟩], some ⟨1⟩, false⟩,
      ⟨.whileLoop ⟨0⟩ ⟨0⟩, some ⟨2⟩, false⟩,
      ⟨.block [⟨1⟩], none, true⟩] }

/-- From the block, whose scope is forgotten at the start of every run, the second run repeats the
first. -/
theorem resolveTypes_selfDeclaring :
    selfDeclaring.arena.WellFormed ∧ selfDeclaring.contains (.stmt ⟨2⟩) ∧
      ∃ t₁ r₁ t₂ r₂, resolveTypes { catalog := {} } selfDeclaring ⟨2⟩ = .ok (t₁, r₁) ∧
        r₁.resolveTypes t₁ ⟨2⟩ = .ok (t₂, r₂) ∧ t₁.Agree t₂ ∧
        r₁.diagnostics = [⟨.unknownIdentifier "x", .expr ⟨0⟩⟩] ∧
        r₂.diagnostics = r₁.diagnostics ++ r₁.diagnostics := by
  have wf : selfDeclaring.arena.WellFormed := Arena.wellFormed_of_check (by decide)
  have hroot : selfDeclaring.contains (.stmt ⟨2⟩) := by rfl
  obtain ⟨t₁, r₁, t₂, r₂, t₃, r₃, reported, again, hrun₁, hrun₂, -, hreported, hagain, -, -, -,
    hrepeats⟩ := resolveTypes_stabilizes (r := { catalog := {} }) rfl wf hroot
  obtain ⟨hagree, rfl⟩ := hrepeats (.inl rfl)
  refine ⟨wf, hroot, t₁, r₁, t₂, r₂, hrun₁, hrun₂, hagree, ?_, ?_⟩
  · cases hrun₁
    rfl
  · rw [hagain, hreported]
    rfl

/-- From the loop, the second run finds the variable that the first declared in the block. -/
theorem resolveTypes_not_idempotent :
    ¬ ∀ (r : Resolver) (t : Tree) (root : StmtId), r.skipsResolved = false → t.arena.WellFormed →
      t.contains (.stmt root) → ∃ t₁ r₁ t₂ r₂, r.resolveTypes t root = .ok (t₁, r₁) ∧
        r₁.resolveTypes t₁ root = .ok (t₂, r₂) ∧ ∀ e, t₂.notes.expr e = t₁.notes.expr e := by
  intro h
  have wf : selfDeclaring.arena.WellFormed := Arena.wellFormed_of_check (by decide)
  have hroot : selfDeclaring.contains (.stmt ⟨1⟩) := by rfl
  obtain ⟨t₁, r₁, t₂, r₂, hrun₁, hrun₂, hsame⟩ :=
    h { catalog := {} } selfDeclaring ⟨1⟩ rfl wf hroot
  cases hrun₁
  cases hrun₂
  have hfailed := congrArg (·.type) (hsame ⟨0⟩)
  cases hfailed

end Resolver
end ExprTyping
