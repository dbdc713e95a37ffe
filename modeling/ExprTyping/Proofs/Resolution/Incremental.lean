import ExprTyping.Proofs.Arena.Check
import ExprTyping.Proofs.Resolution.Run

/-!
# Resolving again what lost its type

After a full run, some expressions lose their types, each together with the expressions above it.
Another run, also one that skips typed expressions, then restores what the full run left
(`Resolver.resolveTypes_restores`): below the expressions that kept their types nothing changed,
so the notes there are still those that the walk finds.
-/

namespace ExprTyping

/-! ## Losing types -/

namespace Tree

variable {t t' : Tree} {root : StmtId} {S : List ExprId}

/-- The trees have the same nodes, scopes and notes, except that the listed expressions have no
type. -/
structure Untyped (t t' : Tree) (S : List ExprId) : Prop where
  arena : t'.arena = t.arena
  expr : ∀ e ∉ S, t'.notes.expr e = t.notes.expr e
  type : ∀ e ∈ S, t'.notes.type e = none
  scope : ∀ s, t'.notes.scope s = t.notes.scope s

theorem foldlM_setType (hS : ∀ e ∈ S, t.contains (.expr e)) :
    ∃ t', S.foldlM (fun t e => t.setType e none) t = .ok t' ∧ t.Untyped t' S := by
  induction S generalizing t with
  | nil => exact ⟨t, rfl, rfl, fun _ _ => rfl, fun _ h => (List.not_mem_nil h).elim, fun _ => rfl⟩
  | cons e rest ih =>
    obtain ⟨node, he⟩ := Arena.exists_expr (hS e List.mem_cons_self)
    have hset : t.setType e none = .ok (t.modifyNote e fun note => { note with type := none }) := by
      rw [setType, he]
      rfl
    have hnote : ∀ x, (t.modifyNote e fun note => { note with type := none }).notes.expr x =
        if e = x then { t.notes.expr e with type := none } else t.notes.expr x :=
      fun x => Notes.expr_setExpr ..
    obtain ⟨t', hrun, h⟩ := ih (t := t.modifyNote e fun note => { note with type := none })
      fun x hx => hS x (List.mem_cons_of_mem _ hx)
    refine ⟨t', ?_, h.arena, fun x hx => ?_, fun x hx => ?_, h.scope⟩
    · rw [List.foldlM_cons, hset]
      exact hrun
    · rw [List.mem_cons, not_or] at hx
      rw [h.expr x hx.2, hnote, if_neg (Ne.symm hx.1)]
    · by_cases hrest : x ∈ rest
      · exact h.type x hrest
      · rw [Notes.type, h.expr x hrest, hnote]
        rcases List.mem_cons.1 hx with rfl | hx
        · rw [if_pos rfl]
        · exact absurd hx hrest

/-- A list of expressions that contains the parents of its members contains what is above them. -/
theorem mem_of_below (wf : t.arena.WellFormed)
    (hparents : ∀ e ∈ S, ∀ p, t.arena.parentExpr e = .ok (some p) → p ∈ S) {e x : ExprId}
    (hx : t.arena.Below (.expr e) (.expr x)) (hS : x ∈ S) : e ∈ S := by
  suffices ∀ n, t.arena.Below n (.expr x) → ∀ e, n = .expr e → e ∈ S from this _ hx e rfl
  intro n hn
  induction hn using Relation.ReflTransGen.head_induction_on with
  | refl =>
    rintro e ⟨⟩
    exact hS
  | head hchild _ ih =>
    rintro e rfl
    obtain ⟨c, rfl⟩ := (Arena.Below.of_child hchild (.refl _)).of_expr
    exact hparents c (ih c rfl) e (wf.parentExpr_of_child hchild)

theorem Untyped.agreeOutside (h : t.Untyped t' S)
    (hS : ∀ e ∈ S, t.arena.Below (.stmt root) (.expr e)) : t.AgreeOutside t' root where
  arena := h.arena
  expr e he := h.expr e fun hmem => he (hS e hmem)
  scope? s _ := scope?_congr h.arena fun _ => h.scope s

end Tree

namespace Resolver

/-- A second run, whether it skips typed expressions or not, restores what a full run left, if the
expressions that lost their types contain the parents of their members. -/
theorem resolveTypes_restores {r r' : Resolver} (hmode : r.skipsResolved = false)
    (hlexicon : r'.lexicon = r.lexicon) {t : Tree}
    (wf : t.arena.WellFormed) {root : StmtId} (hroot : t.contains (.stmt root))
    (howns : t.arena.owns root = true) {S : List ExprId}
    (hbelow : ∀ e ∈ S, t.arena.Below (.stmt root) (.expr e))
    (hparents : ∀ e ∈ S, ∀ p, t.arena.parentExpr e = .ok (some p) → p ∈ S) :
    ∃ t₁ r₁ t₂ t₃ r₃, r.resolveTypes t root = .ok (t₁, r₁) ∧
      S.foldlM (fun t e => t.setType e none) t₁ = .ok t₂ ∧
      r'.resolveTypes t₂ root = .ok (t₃, r₃) ∧
      (∀ e, t₃.notes.expr e = t₁.notes.expr e) ∧ ∀ s, t₃.scope? s = t₁.scope? s := by
  obtain ⟨t₁, r₁, hrun, h₁⟩ := run_leaves wf hroot (restorable_of_not_skips hmode)
  have hcontains : ∀ e ∈ S, t₁.contains (.expr e) := by
    intro e he
    rw [Tree.contains, h₁.arena]
    exact wf.contains_of_below hroot (hbelow e he)
  obtain ⟨t₂, hset, hS⟩ := Tree.foldlM_setType hcontains
  have hagree : t.AgreeOutside t₂ root := by
    refine (h₁.agreeOutside (reference_env_of_owns wf hroot howns r)).trans (hS.agreeOutside ?_)
    rw [h₁.arena]
    exact hbelow
  have href : r'.reference t₂ t₂.arena.opens root = r.reference t t.arena.opens root :=
    hagree.reference_eq wf hlexicon
  have restorable : r'.Restorable t₂ t₂.arena.opens root := by
    refine ⟨t₁.notes.expr, ?_, fun e _ htype x hx => hS.expr x fun hmem => ?_⟩
    · rw [href]
      exact h₁.note
    · rw [hagree.arena] at hx
      rw [hS.type e (Tree.mem_of_below wf hparents hx hmem)] at htype
      cases htype
  have wf₂ : t₂.arena.WellFormed := hagree.arena ▸ wf
  have hroot₂ : t₂.contains (.stmt root) := by
    rw [Tree.contains, hagree.arena]
    exact hroot
  obtain ⟨t₃, r₃, hrun₃, h₃⟩ := run_leaves wf₂ hroot₂ fun _ => restorable
  rw [href] at h₃
  obtain ⟨hexpr, hscope⟩ := h₁.agree h₃ wf hroot hagree
  exact ⟨t₁, r₁, t₂, t₃, r₃, hrun, hset, hrun₃, hexpr, hscope⟩

/-- `{ var line: string = bot.speak("hello") }` -/
def speech : Tree where
  arena := {
    exprs := #[
      ⟨.identifier "bot", some (.expr ⟨1⟩)⟩,
      ⟨.member ⟨0⟩ "speak", some (.expr ⟨3⟩)⟩,
      ⟨.constant (.string "hello"), some (.expr ⟨3⟩)⟩,
      ⟨.call ⟨1⟩ [⟨none, ⟨2⟩⟩], some (.stmt ⟨0⟩)⟩]
    stmts := #[
      ⟨.variables [⟨"line", .string, some ⟨3⟩, false⟩], some ⟨1⟩, false⟩,
      ⟨.block [⟨0⟩], none, true⟩] }

/-- A bot that says what it is told. -/
def speaker : Resolver where
  catalog := {
    types := [{
      typeName := "Bot"
      methods := [{
        name := "speak", parameters := [.unlabeled "words" .string], returnType := .string }] }] }
  intrinsics := {
    definition? := fun name => if name = "bot" then some ⟨"bot", .named "Bot"⟩ else none }

/-- The call is typed again, and its callee, which has the type of the method, is not. -/
theorem resolveTypes_restores_call :
    speech.arena.WellFormed ∧ speech.contains (.stmt ⟨1⟩) ∧ speech.arena.owns ⟨1⟩ = true ∧
      ∃ t₁ r₁ t₂ t₃ r₃, speaker.resolveTypes speech ⟨1⟩ = .ok (t₁, r₁) ∧
        t₁.setType ⟨3⟩ none = .ok t₂ ∧
        { speaker with skipsResolved := true }.resolveTypes t₂ ⟨1⟩ = .ok (t₃, r₃) ∧
        t₂.notes.type ⟨3⟩ = none ∧ t₂.notes.type ⟨1⟩ = some (.function [.string] .string) ∧
        t₃.notes.type ⟨3⟩ = some .string ∧
        (∀ e, t₃.notes.expr e = t₁.notes.expr e) ∧ ∀ s, t₃.scope? s = t₁.scope? s := by
  have wf : speech.arena.WellFormed := Arena.wellFormed_of_check (by decide)
  have hroot : speech.contains (.stmt ⟨1⟩) := by rfl
  have hbelow : ∀ e ∈ [(⟨3⟩ : ExprId)], speech.arena.Below (.stmt ⟨1⟩) (.expr e) := by
    intro e he
    obtain rfl := List.mem_singleton.1 he
    exact (wf.mem_nodes hroot rfl).1 (by decide)
  have hparents : ∀ e ∈ [(⟨3⟩ : ExprId)], ∀ p, speech.arena.parentExpr e = .ok (some p) →
      p ∈ [(⟨3⟩ : ExprId)] := by
    intro e he p hp
    obtain rfl := List.mem_singleton.1 he
    cases hp
  obtain ⟨t₁, r₁, t₂, t₃, r₃, hrun, hset, hrun₃, hexpr, hscope⟩ :=
    resolveTypes_restores (show speaker.skipsResolved = false from rfl)
      (show Resolver.lexicon { speaker with skipsResolved := true } = speaker.lexicon from rfl)
      wf hroot rfl hbelow hparents
  cases hrun
  cases hset
  refine ⟨wf, hroot, rfl, _, _, _, t₃, r₃, rfl, rfl, hrun₃, rfl, rfl, ?_, hexpr, hscope⟩
  rw [Notes.type, hexpr]
  rfl

end Resolver
end ExprTyping
