import ExprTyping.Proofs.Arena.Check
import ExprTyping.Proofs.Arena.Forms
import ExprTyping.Proofs.Resolution.Run

/-!
# Lexical scoping

The resolver writes names on statements and climbs through the tree to find them. What it notes on
an expression is nevertheless what typing the program in an environment gives
(`Resolver.resolveTypes_eq_reference`): frames are pushed and popped on the way through the
program, and a name means the innermost definition of it at that time.

The statements that have a frame are those in which names can be declared. When a statement is
made, these are the blocks and the loops over a collection (`Arena.ScopedByForm.addStmt`). A
statement that gets another form later keeps its scope, or has none as before; then the frames do
not go by the form (`Resolver.not_eq_reference_byForm`).
-/

namespace ExprTyping

namespace Resolver

/-- What a run notes on the expressions below the root is what the walk finds: the walk whose frames
are the statements in which names can be declared, and, in an arena with scopes by form, the walk
whose frames are the blocks and the loops over a collection. -/
theorem resolveTypes_eq_reference {r : Resolver} (hmode : r.skipsResolved = false) {t : Tree}
    (wf : t.arena.WellFormed) {root : StmtId} (hroot : t.contains (.stmt root)) :
    ∃ t' r', r.resolveTypes t root = .ok (t', r') ∧
      (∀ e, t.arena.Below (.stmt root) (.expr e) →
        (r.reference t t.arena.opens root).1.noteOn? e = some (t'.notes.expr e)) ∧
      (t.arena.ScopedByForm → ∀ e, t.arena.Below (.stmt root) (.expr e) →
        (r.reference t Program.opensByForm root).1.noteOn? e = some (t'.notes.expr e)) := by
  obtain ⟨t', r', hrun, hleaves⟩ := run_leaves wf hroot (restorable_of_not_skips hmode)
  refine ⟨t', r', hrun, fun e he => hleaves.note_of_below wf hroot he, fun hform e he => ?_⟩
  have hopens : ∀ Q, t.arena.Holds Q → Program.opensByForm Q = t.arena.owns Q.id :=
    fun _ hQ => hform.opensScope_eq hQ
  obtain ⟨u, s, hrun', hleaves'⟩ :=
    resolveTypes_leaves wf hroot hopens (restorable_of_not_skips hmode)
  rw [hrun] at hrun'
  cases hrun'
  exact hleaves'.note_of_below wf hroot he

/-- `{ var x: string; for x in [1] x; x }` -/
def shadowing : Tree where
  arena := {
    exprs := #[
      ⟨.constant (.int 1), some (.expr ⟨1⟩)⟩,
      ⟨.arrayLiteral [⟨0⟩], some (.stmt ⟨2⟩)⟩,
      ⟨.identifier "x", some (.stmt ⟨1⟩)⟩,
      ⟨.identifier "x", some (.stmt ⟨3⟩)⟩]
    stmts := #[
      ⟨.variables [⟨"x", .string, none, false⟩], some ⟨4⟩, false⟩,
      ⟨.expressions [⟨2⟩], some ⟨2⟩, false⟩,
      ⟨.forIn (.identifier "x") ⟨1⟩ ⟨1⟩, some ⟨4⟩, true⟩,
      ⟨.expressions [⟨3⟩], some ⟨4⟩, false⟩,
      ⟨.block [⟨0⟩, ⟨2⟩, ⟨3⟩], none, true⟩] }

/-- The loop's variable is seen in its body, and the block's behind the loop. -/
theorem resolveTypes_shadowing :
    shadowing.arena.WellFormed ∧ shadowing.contains (.stmt ⟨4⟩) ∧ shadowing.arena.ScopedByForm ∧
      ∃ t' r', resolveTypes { catalog := {} } shadowing ⟨4⟩ = .ok (t', r') ∧
        t'.notes.expr ⟨2⟩ = { type := some .int, binding := some (.defined ⟨"x", .int⟩) } ∧
        t'.notes.expr ⟨3⟩ =
          { type := some .string, binding := some (.defined ⟨"x", .string⟩) } := by
  have wf : shadowing.arena.WellFormed := Arena.wellFormed_of_check (by decide)
  have hform : shadowing.arena.ScopedByForm := by decide
  have hroot : shadowing.contains (.stmt ⟨4⟩) := by rfl
  obtain ⟨t', r', hrun, -, hnotes⟩ :=
    resolveTypes_eq_reference (r := { catalog := {} }) rfl wf hroot
  refine ⟨wf, hroot, hform, t', r', hrun, ?_, ?_⟩
  · have hbelow := (wf.mem_nodes (n := .expr ⟨2⟩) hroot rfl).1 (by decide)
    exact (Option.some.inj (hnotes hform _ hbelow)).symm
  · have hbelow := (wf.mem_nodes (n := .expr ⟨3⟩) hroot rfl).1 (by decide)
    exact (Option.some.inj (hnotes hform _ hbelow)).symm

/-- `for i in [1] i`, made as a loop with a condition: no name can be declared in it. -/
def remade : Tree where
  arena := {
    exprs := #[
      ⟨.constant (.int 1), some (.expr ⟨1⟩)⟩,
      ⟨.arrayLiteral [⟨0⟩], some (.stmt ⟨1⟩)⟩,
      ⟨.identifier "i", some (.stmt ⟨0⟩)⟩]
    stmts := #[
      ⟨.expressions [⟨2⟩], some ⟨1⟩, false⟩,
      ⟨.forIn (.identifier "i") ⟨1⟩ ⟨0⟩, none, false⟩] }

/-- A walk whose frames go by the form alone finds bindings that a run does not. -/
theorem not_eq_reference_byForm :
    ¬ ∀ (r : Resolver) (t : Tree) (root : StmtId), r.skipsResolved = false → t.arena.WellFormed →
      t.contains (.stmt root) → ∃ t' r', r.resolveTypes t root = .ok (t', r') ∧
        ∀ e, t.arena.Below (.stmt root) (.expr e) →
          ((r.reference t Program.opensByForm root).1.noteOn? e).bind (·.binding) =
            (t'.notes.expr e).binding := by
  intro h
  have wf : remade.arena.WellFormed := Arena.wellFormed_of_check (by decide)
  have hroot : remade.contains (.stmt ⟨1⟩) := by rfl
  obtain ⟨t', r', hrun, hbinding⟩ := h { catalog := {} } remade ⟨1⟩ rfl wf hroot
  have hbelow := (wf.mem_nodes (n := .expr ⟨2⟩) hroot rfl).1 (by decide)
  have hnone : (t'.notes.expr ⟨2⟩).binding = none := by
    cases hrun
    rfl
  have hsome := hbinding ⟨2⟩ hbelow
  rw [hnone] at hsome
  cases hsome

end Resolver
end ExprTyping
