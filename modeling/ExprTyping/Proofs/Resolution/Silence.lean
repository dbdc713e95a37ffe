import ExprTyping.Proofs.Arena.Check
import ExprTyping.Proofs.Lexical.Silence
import ExprTyping.Proofs.Resolution.History
import ExprTyping.Proofs.Resolution.Run

/-!
# No silent failure

A run that reports nothing but warnings, and leaves no operand and nothing that a loop iterates over
unresolved, leaves no failed expression (`Resolver.resolveTypes_ne_errorType`), provided that the
type of failed expressions occurs nowhere in what the run starts from.
-/

namespace ExprTyping.Resolver

/-- In surroundings in which the type of failed expressions does not occur, a run that reports
nothing but warnings leaves no failed expression, unless it leaves an operand, or something that a
loop iterates over, unresolved. -/
theorem resolveTypes_ne_errorType {r : Resolver} (hmode : r.skipsResolved = false) {t : Tree}
    (wf : t.arena.WellFormed) {root : StmtId} (hroot : t.contains (.stmt root))
    (hcatalog : r.catalog.ErrorFree) (hintrinsics : r.intrinsics.ErrorFree)
    (hwritten : t.arena.ErrorFree (.stmt root))
    (haround : ∀ s scope, Relation.TransGen t.arena.Parent (.stmt root) (.stmt s) →
      t.scope? s = .ok (some scope) → scope.ErrorFree) :
    ∃ t' r' reported, r.resolveTypes t root = .ok (t', r') ∧
      r'.diagnostics = r.diagnostics ++ reported ∧
      ((∀ d ∈ reported, d.issue.isWarning) →
        (∀ e, t.arena.Below (.stmt root) (.expr e) → t.arena.IsOperand e ∨ t.arena.IsIterated e →
          t'.notes.type e ≠ none) →
        ∀ e, t.arena.Below (.stmt root) (.expr e) → t'.notes.type e ≠ some .errorType) := by
  obtain ⟨t', r', hrun, hleaves⟩ := run_leaves wf hroot (restorable_of_not_skips hmode)
  refine ⟨t', r', _, hrun, hleaves.diagnostics hmode, fun hwarnings hresolved e he => ?_⟩
  obtain ⟨f, hf, hnote⟩ := Option.map_eq_some_iff.1 (hleaves.note_of_below wf hroot he)
  have hf := List.mem_of_find?_eq_some hf
  obtain ⟨P, hP, rfl, href⟩ := exists_reference wf hroot r t.arena.opens
  rw [href] at hleaves hwarnings hf
  have hquiet : r.lexicon.Quiet t.arena.opens t.arena
      ⟨P, {}, t.arena.framesAbove t.notes (.stmt P.id)⟩ := by
    refine ⟨hwarnings, fun f hf hused => ?_⟩
    have hsome := hresolved f.expr (Lexicon.below_of_mem_take hP hf) hused
    rw [Notes.type, hleaves.note f hf] at hsome
    exact Option.isSome_iff_ne_none.2 hsome
  have hframes : Leg.ErrorFree ⟨P, {}, t.arena.framesAbove t.notes (.stmt P.id)⟩ := by
    refine ⟨.empty, fun scope hscope => ?_⟩
    obtain ⟨s, hs, rfl⟩ := List.mem_map.1 hscope
    obtain ⟨n, hn, hs'⟩ := List.mem_filterMap.1 hs
    obtain rfl := Arena.owner?_eq_some hs'
    exact haround s _ (wf.transGen_of_mem_ancestors hn)
      (Tree.scope?_of_owns (Arena.owns_of_mem_ownersAbove hs))
  have hfree := Lexicon.take_errorFree ⟨hcatalog, hintrinsics⟩ wf
    ⟨hP, hwritten, hquiet, hframes⟩ f hf
  rw [Notes.type, ← hnote]
  intro hfailed
  rw [ExprNote.errorFree, hfailed] at hfree
  cases hfree

/-- `{ var n: int = 1 as int; for bot in crew { bot.speak() } }` -/
def crewed : Tree where
  arena := {
    exprs := #[
      ⟨.identifier "crew", some (.stmt ⟨2⟩)⟩,
      ⟨.identifier "bot", some (.expr ⟨2⟩)⟩,
      ⟨.member ⟨1⟩ "speak", some (.expr ⟨3⟩)⟩,
      ⟨.call ⟨2⟩ [], some (.stmt ⟨0⟩)⟩,
      ⟨.constant (.int 1), some (.expr ⟨5⟩)⟩,
      ⟨.cast ⟨4⟩ .int, some (.stmt ⟨3⟩)⟩]
    stmts := #[
      ⟨.expressions [⟨3⟩], some ⟨1⟩, false⟩,
      ⟨.block [⟨0⟩], some ⟨2⟩, true⟩,
      ⟨.forIn (.identifier "bot") ⟨0⟩ ⟨1⟩, some ⟨4⟩, true⟩,
      ⟨.variables [⟨"n", .int, some ⟨5⟩, false⟩], some ⟨4⟩, false⟩,
      ⟨.block [⟨3⟩, ⟨2⟩], none, true⟩] }

/-- A crew of bots that speak. -/
def crew : Resolver where
  catalog := bots.catalog
  intrinsics := {
    definition? := fun name =>
      if name = "crew" then some ⟨"crew", .array (.named "Bot")⟩ else none }

set_option maxRecDepth 1000 in
/-- Neither the loop's variable nor the member that is called fails. -/
theorem resolveTypes_crewed :
    crewed.arena.WellFormed ∧ crewed.contains (.stmt ⟨4⟩) ∧ crew.catalog.ErrorFree ∧
      crew.intrinsics.ErrorFree ∧ crewed.arena.ErrorFree (.stmt ⟨4⟩) ∧
      ∃ t' r', crew.resolveTypes crewed ⟨4⟩ = .ok (t', r') ∧
        ∀ e, crewed.arena.Below (.stmt ⟨4⟩) (.expr e) → t'.notes.type e ≠ some .errorType := by
  have wf : crewed.arena.WellFormed := Arena.wellFormed_of_check (by decide)
  have hroot : crewed.contains (.stmt ⟨4⟩) := by rfl
  have hcatalog : crew.catalog.ErrorFree := by decide
  have hintrinsics : crew.intrinsics.ErrorFree := by
    refine ⟨fun name d hd => ?_, fun name b hb => by cases hb⟩
    simp only [crew, Option.ite_none_right_eq_some, Option.some.injEq] at hd
    obtain ⟨-, rfl⟩ := hd
    rfl
  have hwritten : crewed.arena.ErrorFree (.stmt ⟨4⟩) := by
    constructor
    · rintro ⟨i⟩ node declarations - hnode hk d hd
      match i with
      | 0 | 1 | 2 | 4 => cases hnode; cases hk
      | 3 => cases hnode; cases hk; obtain rfl := List.mem_singleton.1 hd; rfl
      | _ + 5 => cases hnode
    · rintro ⟨i⟩ node x target - hnode hk
      match i with
      | 0 | 1 | 2 | 3 | 4 => cases hnode; cases hk
      | 5 => cases hnode; cases hk; rfl
      | _ + 6 => cases hnode
  have haround : ∀ s scope, Relation.TransGen crewed.arena.Parent (.stmt ⟨4⟩) (.stmt s) →
      crewed.scope? s = .ok (some scope) → scope.ErrorFree := by
    intro s scope habove
    obtain ⟨p, hp, -⟩ := Relation.TransGen.head'_iff.1 habove
    cases hp
  obtain ⟨t', r', reported, hrun, hreported, hfree⟩ :=
    resolveTypes_ne_errorType (r := crew) rfl wf hroot hcatalog hintrinsics hwritten haround
  refine ⟨wf, hroot, hcatalog, hintrinsics, hwritten, t', r', hrun, ?_⟩
  cases hrun
  have hnone : reported = [] := hreported.symm
  refine hfree (by simp [hnone]) fun e he _ => ?_
  have hlt := wf.contains_of_below hroot he
  obtain ⟨i⟩ := e
  match i with
  | 0 | 1 | 2 | 3 | 4 | 5 => exact fun h => by cases h
  | _ + 6 => cases hlt

end ExprTyping.Resolver
