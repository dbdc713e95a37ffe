import ExprTyping.Proofs.Edit.Steps
import ExprTyping.Proofs.Resolution.Idempotence
import ExprTyping.Proofs.Resolution.Parentheses
import ExprTyping.Proofs.Visit.Totality

/-!
# Resolving again after a rewrite

After a full run, an expression is put in parentheses and the expressions above lose their types
(`Tree.Rewritten`). A run that skips typed expressions then types the parentheses and what is above
them, and skips everything else that has a type.

* It leaves what a full run on the rewritten tree leaves, if that run keeps the notes on what is
  skipped (`Tree.Rewritten.exists_agree`).
* The full run keeps them wherever parentheses make no difference (`Arena.Enclosable`): it follows a
  walk that finds what the walk before the rewrite found (`Resolver.note_rewritten`).

`Resolver.resolveTypes_rewritten` is the main result. Around a method that is called parentheses do
make a difference: the call does not find the method any more, and the type of the method, which
the run that skips keeps on the callee, is stale (`Resolver.resolveTypes_stale_callee`).
-/

namespace ExprTyping

variable {r r' r₁ r₂ : Resolver} {t t' t₁ t₂ t₃ : Tree} {root : StmtId} {e p x : ExprId}

namespace Tree

/-- In `t'`, the expression `e` stands in parentheses `p`, and neither the parentheses nor the
expressions above them have a type. Everything else is noted as in `t`. -/
structure Rewritten (t t' : Tree) (e p : ExprId) : Prop where
  encloses : t.arena.Encloses t'.arena e p
  expr : ∀ x, ¬ t'.arena.Below (.expr x) (.expr p) → t'.notes.expr x = t.notes.expr x
  type : ∀ x, t'.arena.Below (.expr x) (.expr p) → t'.notes.type x = none
  scope : ∀ s, t'.notes.scope s = t.notes.scope s

/-- An expression with a parent can be put in parentheses, and then the expressions above them can
be made to lose their types. -/
theorem exists_rewritten (wf : t.arena.WellFormed) (hblank : t.Blank) {q : NodeId}
    (hq : t.arena.Parent (.expr e) q) :
    ∃ t₁ p, t.wrapExpr e parenthesize = .ok (t₁, .ok p) ∧ ∀ S : List ExprId,
      (∀ x, x ∈ S ↔ x ≠ p ∧ t₁.arena.Below (.expr x) (.expr p)) →
      ∃ t', S.foldlM (fun t x => t.setType x none) t₁ = .ok t' ∧ t'.arena = t₁.arena ∧
        t.Rewritten t' e p := by
  obtain ⟨t₁, p, hwrap, hnotes, hencloses⟩ := exists_wrapExpr_parenthesize wf hq
  refine ⟨t₁, p, hwrap, fun S hS => ?_⟩
  have hcontains : ∀ x ∈ S, t₁.contains (.expr x) := by
    intro x hx
    obtain ⟨hne, hbelow⟩ := (hS x).1 hx
    rcases hbelow.eq_or_child with heq | ⟨c, ⟨cs, hcs, -⟩, -⟩
    · exact absurd (NodeId.expr.inj heq).symm hne
    · exact Arena.contains_of_children hcs
  obtain ⟨t', hset, h⟩ := foldlM_setType hcontains
  refine ⟨t', hset, h.arena, ?_⟩
  exact {
    encloses := h.arena ▸ hencloses
    expr := fun x hx => by
      rw [h.arena] at hx
      rw [h.expr x fun hmem => hx ((hS x).1 hmem).2, hnotes]
    type := fun x hx => by
      rw [h.arena] at hx
      by_cases hxp : x = p
      · rw [hxp, Notes.type, h.expr p fun hmem => ((hS p).1 hmem).1 rfl, hnotes,
          hblank p hencloses.fresh]
      · exact h.type x ((hS x).2 ⟨hxp, hx⟩)
    scope := fun s => by rw [h.scope, hnotes] }

end Tree

namespace Resolver

/-- A run notes nothing on expressions that the tree does not have. -/
theorem Leaves.blank {o : Outcome} {env : Env} (h : Leaves r r' t t' root o env)
    (wf : t.arena.WellFormed) (hroot : t.contains (.stmt root)) (hblank : t.Blank) :
    t'.Blank := by
  intro x hx
  rw [Tree.contains, h.arena] at hx
  rw [h.expr_frame x fun hbelow => ?_, hblank x hx]
  rw [wf.contains_of_below hroot hbelow] at hx
  cases hx

/-! ## Skipping what has a type -/

/-- A run that skips typed expressions leaves what a full run leaves, if below the typed expressions
the full run changes nothing. -/
theorem exists_agree_of_kept (hmode : r.skipsResolved = false) (wf : t.arena.WellFormed)
    (hroot : t.contains (.stmt root)) (hrun : r.resolveTypes t root = .ok (t', r'))
    (hkept : ∀ e, t.arena.Below (.stmt root) (.expr e) → (t.notes.type e).isSome →
      ∀ x, t.arena.Below (.expr e) (.expr x) → t.notes.expr x = t'.notes.expr x) :
    ∃ t'' r'', { r with skipsResolved := true }.resolveTypes t root = .ok (t'', r'') ∧
      t'.Agree t'' := by
  obtain ⟨u, s, hrun', h⟩ := run_leaves wf hroot (restorable_of_not_skips hmode)
  cases hrun.symm.trans hrun'
  have restorable : Restorable { r with skipsResolved := true } t t.arena.opens root :=
    ⟨t'.notes.expr, h.note, hkept⟩
  obtain ⟨t'', r'', hrun'', h'⟩ := run_leaves wf hroot fun _ => restorable
  obtain ⟨hexpr, hscope⟩ := h.agree h' wf hroot (.refl t root)
  exact ⟨t'', r'', hrun'', h'.arena.trans h.arena.symm, hexpr, hscope⟩

end Resolver

namespace Tree.Rewritten

/-- After a rewrite, a run that skips typed expressions leaves what a full run leaves, if the full
run keeps the notes on what is skipped. -/
theorem exists_agree (h : t.Rewritten t' e p) (hmode : r.skipsResolved = false)
    (wf : t'.arena.WellFormed) (hroot : t'.contains (.stmt root))
    (hrun : r.resolveTypes t' root = .ok (t₁, r₁))
    (hkept : ∀ y, t'.arena.Below (.stmt root) (.expr y) → (t'.notes.type y).isSome →
      ∀ x, t'.arena.Below (.expr y) (.expr x) → t₁.notes.expr x = t.notes.expr x) :
    ∃ t₂ r₂, { r with skipsResolved := true }.resolveTypes t' root = .ok (t₂, r₂) ∧
      t₁.Agree t₂ := by
  refine Resolver.exists_agree_of_kept hmode wf hroot hrun fun y hy htype x hx => ?_
  have hxp : ¬ t'.arena.Below (.expr x) (.expr p) := by
    intro hxp
    rw [h.type y (Relation.ReflTransGen.trans hx hxp)] at htype
    cases htype
  rw [h.expr x hxp, hkept y hy htype x hx]

end Tree.Rewritten

namespace Resolver

/-! ## Where parentheses make no difference -/

section Enclosable

variable {env : Env} (h : t₁.Rewritten t₂ e p) (wf : t.arena.WellFormed)
  (hroot : t.contains (.stmt root)) (howns : t.arena.owns root = true)
  (h₁ : Leaves r r₁ t t₁ root (r.reference t t.arena.opens root).1
    (r.reference t t.arena.opens root).2)
include h wf hroot howns h₁

/-- After a full run and a rewrite, the walk starts in the scopes in which it started before. -/
theorem framesAbove_rewritten : t₂.arena.framesAbove t₂.notes (.stmt root) =
    t.arena.framesAbove t.notes (.stmt root) := by
  have hencloses : t.arena.Encloses t₂.arena e p := h₁.arena ▸ h.encloses
  have hscopes : t₂.notes.scope = t₁.notes.scope := funext h.scope
  rw [Arena.framesAbove, hencloses.ownersAbove_stmt wf, hscopes]
  exact h₁.frames.trans (reference_env_of_owns wf hroot howns r)

/-- A full run after the rewrite finds what the run before it found. -/
theorem findsEnclosed_rewritten (hlexicon : r'.lexicon = r.lexicon)
    (henclosable : t.arena.Enclosable e (t₁.notes.type e)) :
    FindsEnclosed e p (r.reference t t.arena.opens root).1.findings
      (r'.reference t₂ t₂.arena.opens root).1.findings := by
  have hencloses : t.arena.Encloses t₂.arena e p := h₁.arena ▸ h.encloses
  have href : r'.reference t₂ t₂.arena.opens root =
      r.lexicon.walk t₂.arena.opens (t₂.arena.program root) {}
        (t.arena.framesAbove t.notes (.stmt root)) := by
    rw [reference, hlexicon, framesAbove_rewritten h wf hroot howns h₁]
  rw [href]
  exact (hencloses.walk_compares wf henclosable r.lexicon hroot {} _
    (h₁.admits_parens e p)).2.findings

/-- A full run after the rewrite keeps all notes and gives the parentheses the type of what they
enclose. -/
theorem note_rewritten (hlexicon : r'.lexicon = r.lexicon)
    (he : t.arena.Below (.stmt root) (.expr e))
    (henclosable : t.arena.Enclosable e (t₁.notes.type e))
    (h₂ : Leaves r' r₂ t₂ t₃ root (r'.reference t₂ t₂.arena.opens root).1 env) (x : ExprId) :
    t₃.notes.expr x = if x = p then { type := t₁.notes.type e } else t₁.notes.expr x := by
  have hencloses : t.arena.Encloses t₂.arena e p := h₁.arena ▸ h.encloses
  have wf₂ : t₂.arena.WellFormed := hencloses.wellFormed wf
  have hp : t₂.arena.Below (.stmt root) (.expr p) := hencloses.below_new wf he (by simp)
  have hfound := findsEnclosed_rewritten h wf hroot howns h₁ hlexicon henclosable
  by_cases hx : t₂.arena.Below (.stmt root) (.expr x)
  · exact h₁.note_enclosed h₂ wf₂ (hencloses.contains_old hroot) hfound hx
  · have hxp : x ≠ p := by
      rintro rfl
      exact hx hp
    rw [if_neg hxp, h₂.expr_frame x hx]
    exact h.expr x fun hbelow => hx (wf₂.below_of_below hp hbelow)

end Enclosable

/-- A full run, then parentheses around an expression `e` below the root, and then another run with
the same catalog and intrinsics on the tree in which the expressions above the parentheses have lost
their types. A run that skips typed expressions leaves what a full run leaves,

* if the full run keeps the notes on every expression at or below one that has a type, which is what
  is skipped;
* if parentheses around `e` make no difference: then the full run keeps the notes on every old
  expression, and the parentheses have the type of `e`. -/
theorem resolveTypes_rewritten (hmode : r.skipsResolved = false) (wf : t.arena.WellFormed)
    (hroot : t.contains (.stmt root)) (howns : t.arena.owns root = true) (hblank : t.Blank)
    (he : t.arena.Below (.stmt root) (.expr e)) :
    ∃ t₁ r₁ t₂ p, r.resolveTypes t root = .ok (t₁, r₁) ∧
      t₁.wrapExpr e Tree.parenthesize = .ok (t₂, .ok p) ∧
      ∀ (S : List ExprId) (r' : Resolver),
        (∀ x, x ∈ S ↔ x ≠ p ∧ t₂.arena.Below (.expr x) (.expr p)) →
        r'.skipsResolved = false → r'.lexicon = r.lexicon →
        ∃ t₃ t₄ r₄ t₅ r₅, S.foldlM (fun t x => t.setType x none) t₂ = .ok t₃ ∧
          r'.resolveTypes t₃ root = .ok (t₄, r₄) ∧
          { r' with skipsResolved := true }.resolveTypes t₃ root = .ok (t₅, r₅) ∧
          ((∀ y, t₂.arena.Below (.stmt root) (.expr y) → (t₃.notes.type y).isSome →
              ∀ x, t₂.arena.Below (.expr y) (.expr x) → t₄.notes.expr x = t₁.notes.expr x) →
            t₄.Agree t₅) ∧
          (t.arena.Enclosable e (t₁.notes.type e) →
            t₄.Agree t₅ ∧ t₄.notes.expr p = { type := t₁.notes.type e } ∧
              ∀ x, x ≠ p → t₄.notes.expr x = t₁.notes.expr x) := by
  obtain ⟨t₁, r₁, hrun₁, h₁⟩ := run_leaves wf hroot (restorable_of_not_skips hmode)
  obtain ⟨q, -, hchild⟩ : ∃ q, t.arena.Below (.stmt root) q ∧ t.arena.Child q (.expr e) := by
    rcases Relation.ReflTransGen.cases_tail he with heq | hq
    · cases heq
    · exact hq
  have hq : t₁.arena.Parent (.expr e) q := h₁.arena ▸ (wf.child_iff_parent _ _).1 hchild
  obtain ⟨t₂, p, hwrap, hrewritten⟩ :=
    Tree.exists_rewritten (h₁.arena ▸ wf) (h₁.blank wf hroot hblank) hq
  refine ⟨t₁, r₁, t₂, p, hrun₁, hwrap, fun S r' hS hmode' hlexicon => ?_⟩
  obtain ⟨t₃, hset, h₃, h⟩ := hrewritten S hS
  have hencloses : t.arena.Encloses t₃.arena e p := h₁.arena ▸ h.encloses
  have wf₃ : t₃.arena.WellFormed := hencloses.wellFormed wf
  have hroot₃ : t₃.contains (.stmt root) := hencloses.contains_old hroot
  obtain ⟨t₄, r₄, hrun₄, h₄⟩ := run_leaves wf₃ hroot₃ (restorable_of_not_skips hmode')
  obtain ⟨t₅, r₅, hrun₅⟩ := exists_resolveTypes wf₃ { r' with skipsResolved := true } hroot₃
  have hagree : (∀ y, t₃.arena.Below (.stmt root) (.expr y) → (t₃.notes.type y).isSome →
      ∀ x, t₃.arena.Below (.expr y) (.expr x) → t₄.notes.expr x = t₁.notes.expr x) →
      t₄.Agree t₅ := by
    intro hkept
    obtain ⟨t₆, r₆, hrun₆, hagree⟩ := h.exists_agree hmode' wf₃ hroot₃ hrun₄ hkept
    cases hrun₅.symm.trans hrun₆
    exact hagree
  refine ⟨t₃, t₄, r₄, t₅, r₅, hset, hrun₄, hrun₅, h₃ ▸ hagree, fun henclosable => ?_⟩
  have hnote := note_rewritten h wf hroot howns h₁ hlexicon he henclosable h₄
  have hold : ∀ x, x ≠ p → t₄.notes.expr x = t₁.notes.expr x := by
    intro x hne
    rw [hnote x, if_neg hne]
  refine ⟨hagree fun y _ htype x hx => hold x ?_, (hnote p).trans (if_pos rfl), hold⟩
  rintro rfl
  rw [h.type y hx] at htype
  cases htype

/-- In parentheses, the argument of the call has the type that it had, and so has the call. -/
theorem resolveTypes_rewritten_argument :
    speech.arena.WellFormed ∧ speech.contains (.stmt ⟨1⟩) ∧ speech.arena.owns ⟨1⟩ = true ∧
      speech.Blank ∧ speech.arena.Below (.stmt ⟨1⟩) (.expr ⟨2⟩) ∧
      ∃ t₁ r₁ t₂ t₃ t₄ r₄ t₅ r₅, speaker.resolveTypes speech ⟨1⟩ = .ok (t₁, r₁) ∧
        t₁.wrapExpr ⟨2⟩ Tree.parenthesize = .ok (t₂, .ok ⟨4⟩) ∧ t₂.setType ⟨3⟩ none = .ok t₃ ∧
        speaker.resolveTypes t₃ ⟨1⟩ = .ok (t₄, r₄) ∧
        { speaker with skipsResolved := true }.resolveTypes t₃ ⟨1⟩ = .ok (t₅, r₅) ∧
        speech.arena.Enclosable ⟨2⟩ (t₁.notes.type ⟨2⟩) ∧ t₄.Agree t₅ ∧
        t₅.notes.type ⟨4⟩ = some .string ∧ t₅.notes.type ⟨3⟩ = some .string := by
  have wf : speech.arena.WellFormed := Arena.wellFormed_of_check (by decide)
  have hroot : speech.contains (.stmt ⟨1⟩) := by rfl
  have hblank : speech.Blank := fun _ _ => rfl
  have he : speech.arena.Below (.stmt ⟨1⟩) (.expr ⟨2⟩) := (wf.mem_nodes hroot rfl).1 (by decide)
  obtain ⟨t₁, r₁, t₂, p, hrun, hwrap, hrest⟩ :=
    resolveTypes_rewritten (show speaker.skipsResolved = false from rfl) wf hroot rfl hblank he
  have henclosable : speech.arena.Enclosable ⟨2⟩ (t₁.notes.type ⟨2⟩) := {
    not_member := fun hcallee => by cases hcallee
    not_type := fun hcallee => by cases hcallee
    no_link := fun hreceiver => by cases hreceiver }
  cases hrun
  obtain rfl : p = ⟨4⟩ := by
    cases hwrap
    rfl
  have hencloses : speech.arena.Encloses t₂.arena ⟨2⟩ ⟨4⟩ :=
    Tree.encloses_of_wrapExpr wf (e := ⟨2⟩) (q := .expr ⟨3⟩) rfl (by rfl) hwrap
  obtain ⟨t₃, t₄, r₄, t₅, r₅, hset, hrun₄, hrun₅, -, hsame⟩ :=
    hrest [⟨3⟩] speaker (hencloses.mem_above_iff wf (s := ⟨0⟩) rfl rfl) rfl rfl
  obtain ⟨hagree, hparens, hold⟩ := hsame henclosable
  cases hwrap
  cases hset
  refine ⟨wf, hroot, rfl, hblank, he, _, _, _, _, t₄, r₄, t₅, r₅, rfl, rfl, rfl, hrun₄, hrun₅,
    henclosable, hagree, ?_, ?_⟩
  · rw [Notes.type, hagree.expr, hparens]
    rfl
  · rw [Notes.type, hagree.expr, hold ⟨3⟩ (by decide)]
    rfl

/-- In parentheses, the method is not found: a full run fails on it, and a run that skips typed
expressions leaves it the type of the method. -/
theorem resolveTypes_stale_callee :
    ¬ ∀ (r : Resolver) (t : Tree) (root : StmtId) (e : ExprId), r.skipsResolved = false →
      t.arena.WellFormed → t.contains (.stmt root) → t.arena.owns root = true → t.Blank →
      t.arena.Below (.stmt root) (.expr e) →
      ∃ t₁ r₁ t₂ p, r.resolveTypes t root = .ok (t₁, r₁) ∧
        t₁.wrapExpr e Tree.parenthesize = .ok (t₂, .ok p) ∧
        ∀ (S : List ExprId) (r' : Resolver),
          (∀ x, x ∈ S ↔ x ≠ p ∧ t₂.arena.Below (.expr x) (.expr p)) →
          r'.skipsResolved = false → r'.lexicon = r.lexicon →
          ∃ t₃ t₄ r₄ t₅ r₅, S.foldlM (fun t x => t.setType x none) t₂ = .ok t₃ ∧
            r'.resolveTypes t₃ root = .ok (t₄, r₄) ∧
            { r' with skipsResolved := true }.resolveTypes t₃ root = .ok (t₅, r₅) ∧
            ∀ x, t₂.arena.Below (.stmt root) (.expr x) → t₅.notes.type x = t₄.notes.type x := by
  intro h
  have wf : speech.arena.WellFormed := Arena.wellFormed_of_check (by decide)
  have hroot : speech.contains (.stmt ⟨1⟩) := by rfl
  have hblank : speech.Blank := fun _ _ => rfl
  have he : speech.arena.Below (.stmt ⟨1⟩) (.expr ⟨1⟩) := (wf.mem_nodes hroot rfl).1 (by decide)
  obtain ⟨t₁, r₁, t₂, p, hrun, hwrap, hrest⟩ :=
    h speaker speech ⟨1⟩ ⟨1⟩ rfl wf hroot rfl hblank he
  have harena : t₁.arena = speech.arena := by
    cases hrun
    rfl
  have hencloses : speech.arena.Encloses t₂.arena ⟨1⟩ p :=
    Tree.encloses_of_wrapExpr wf (e := ⟨1⟩) (q := .expr ⟨3⟩) rfl harena hwrap
  obtain ⟨t₃, t₄, r₄, t₅, r₅, hset, hrun₄, hrun₅, hsame⟩ :=
    hrest [⟨3⟩] speaker (hencloses.mem_above_iff wf (s := ⟨0⟩) rfl rfl) rfl rfl
  have hfull : (resolveTypes speaker t₃ ⟨1⟩).toOption.map (·.1.notes.type ⟨1⟩) =
      some (some .errorType) := by
    cases hrun
    cases hwrap
    cases hset
    decide +kernel
  have hskipped : (resolveTypes { speaker with skipsResolved := true } t₃ ⟨1⟩).toOption.map
      (·.1.notes.type ⟨1⟩) = some (some (.function [.string] .string)) := by
    cases hrun
    cases hwrap
    cases hset
    decide +kernel
  rw [hrun₄] at hfull
  rw [hrun₅] at hskipped
  have hstale : some (Ty.function [.string] .string) = some .errorType :=
    (Option.some.inj hskipped).symm.trans
      ((hsame ⟨1⟩ (hencloses.below_old he)).trans (Option.some.inj hfull))
  cases hstale

end Resolver
end ExprTyping
