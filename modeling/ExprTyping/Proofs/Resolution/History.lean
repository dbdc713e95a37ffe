import ExprTyping.Proofs.Arena.Check
import ExprTyping.Proofs.Resolution.Run

/-!
# Independence of earlier runs

A run forgets the names and the bindings below its root, but not the types and the members. They
make no difference: a run from another tree that agrees outside the root leaves the same notes on
all expressions and the same names in all statements, and reports the same
(`Resolver.resolveTypes_agree`).
-/

namespace ExprTyping.Resolver

/-- Two full runs from trees that agree outside the root leave the same and report the same. -/
theorem resolveTypes_agree {r₁ r₂ : Resolver} (hmode₁ : r₁.skipsResolved = false)
    (hmode₂ : r₂.skipsResolved = false) (hlexicon : r₂.lexicon = r₁.lexicon) {t₁ t₂ : Tree}
    (wf : t₁.arena.WellFormed) {root : StmtId} (hroot : t₁.contains (.stmt root))
    (h : t₁.AgreeOutside t₂ root) :
    ∃ t₁' r₁' t₂' r₂' reported,
      r₁.resolveTypes t₁ root = .ok (t₁', r₁') ∧ r₂.resolveTypes t₂ root = .ok (t₂', r₂') ∧
      (∀ e, t₂'.notes.expr e = t₁'.notes.expr e) ∧ (∀ s, t₂'.scope? s = t₁'.scope? s) ∧
      r₁'.diagnostics = r₁.diagnostics ++ reported ∧
      r₂'.diagnostics = r₂.diagnostics ++ reported := by
  have wf₂ : t₂.arena.WellFormed := h.arena ▸ wf
  have hroot₂ : t₂.contains (.stmt root) := by
    rw [Tree.contains, h.arena]
    exact hroot
  obtain ⟨t₁', r₁', hrun₁, h₁⟩ := run_leaves wf hroot (restorable_of_not_skips hmode₁)
  obtain ⟨t₂', r₂', hrun₂, h₂⟩ := run_leaves wf₂ hroot₂ (restorable_of_not_skips hmode₂)
  rw [h.reference_eq wf hlexicon] at h₂
  obtain ⟨hexpr, hscope⟩ := h₁.agree h₂ wf hroot h
  exact ⟨t₁', r₁', t₂', r₂', _, hrun₁, hrun₂, hexpr, hscope, h₁.diagnostics hmode₁,
    h₂.diagnostics hmode₂⟩

/-- `{ bot.speak() }` -/
def fresh : Tree where
  arena := {
    exprs := #[
      ⟨.identifier "bot", some (.expr ⟨1⟩)⟩,
      ⟨.member ⟨0⟩ "speak", some (.expr ⟨2⟩)⟩,
      ⟨.call ⟨1⟩ [], some (.stmt ⟨0⟩)⟩]
    stmts := #[
      ⟨.expressions [⟨2⟩], some ⟨1⟩, false⟩,
      ⟨.block [⟨0⟩], none, true⟩] }

/-- The same with notes from a time when `bot` and `speak` meant something else. -/
def stale : Tree :=
  let noted := (fresh.modifyNote ⟨0⟩ fun _ => { type := some .bool }).modifyNote ⟨1⟩ fun _ =>
    { type := some .int, member := some (.property ⟨"speak", .function [] .float, false⟩) }
  { noted with notes := noted.notes.setScope ⟨1⟩ ⟨[⟨"bot", .bool⟩]⟩ }

/-- A bot that speaks. -/
def bots : Resolver where
  catalog := {
    types := [{ typeName := "Bot", methods := [{ name := "speak", returnType := .string }] }] }
  intrinsics := {
    definition? := fun name => if name = "bot" then some ⟨"bot", .named "Bot"⟩ else none }

/-- Neither the type of the receiver nor the member of the callee is read before it is noted
again. -/
theorem resolveTypes_stale :
    fresh.arena.WellFormed ∧ fresh.contains (.stmt ⟨1⟩) ∧ fresh.AgreeOutside stale ⟨1⟩ ∧
      ∃ t₁ r₁ t₂ r₂, bots.resolveTypes fresh ⟨1⟩ = .ok (t₁, r₁) ∧
        bots.resolveTypes stale ⟨1⟩ = .ok (t₂, r₂) ∧ t₁.notes.type ⟨2⟩ = some .string ∧
        (∀ e, t₂.notes.expr e = t₁.notes.expr e) ∧ (∀ s, t₂.scope? s = t₁.scope? s) ∧
        r₂.diagnostics = r₁.diagnostics := by
  have wf : fresh.arena.WellFormed := Arena.wellFormed_of_check (by decide)
  have hroot : fresh.contains (.stmt ⟨1⟩) := by rfl
  have below : ∀ n ∈ [NodeId.stmt ⟨1⟩, .stmt ⟨0⟩, .expr ⟨2⟩, .expr ⟨1⟩, .expr ⟨0⟩],
      fresh.arena.Below (.stmt ⟨1⟩) n := fun n hn => (wf.mem_nodes hroot rfl).1 hn
  have hagree : fresh.AgreeOutside stale ⟨1⟩ :=
    (Tree.AgreeOutside.refl fresh ⟨1⟩).modifyNote (below (.expr ⟨0⟩) (by decide)) _
      |>.modifyNote (below (.expr ⟨1⟩) (by decide)) _
      |>.setScope (below (.stmt ⟨1⟩) (by decide)) _
  obtain ⟨t₁, r₁, t₂, r₂, reported, hrun₁, hrun₂, hexpr, hscope, hr₁, hr₂⟩ :=
    resolveTypes_agree (show bots.skipsResolved = false from rfl)
      (show bots.skipsResolved = false from rfl) rfl wf hroot hagree
  refine ⟨wf, hroot, hagree, t₁, r₁, t₂, r₂, hrun₁, hrun₂, ?_, hexpr, hscope, hr₂.trans hr₁.symm⟩
  cases hrun₁
  rfl

end ExprTyping.Resolver
