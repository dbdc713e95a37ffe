import ExprTyping.Proofs.Edit.Parentheses
import ExprTyping.Proofs.Lexical.Enclosure
import ExprTyping.Proofs.Resolution.Incremental

/-!
# Parentheses make no difference

An expression that nothing is applied to is put in parentheses before a run. The run gives the
parentheses the type of the expression, and everything else is as it is without them: the notes, the
scopes and the diagnostics (`Resolver.resolveTypes_parenthesized`). Both runs follow walks that
compare (`Arena.Encloses.walk_compares`).

What a member access, a subscript, a call or an optional link is applied to may be found through its
form, so there parentheses can make a difference.
-/

namespace ExprTyping

variable {r r' r₁ r₂ : Resolver} {t t' t₁ t₂ : Tree} {root s : StmtId} {e p x : ExprId}

/-- What is declared in a statement is not touched by parentheses. -/
theorem Tree.scope?_enclosed (h : t.arena.Encloses t'.arena e p)
    (hs : t.arena.owns s = true → t'.notes.scope s = t.notes.scope s) :
    t'.scope? s = t.scope? s := by
  rw [scope?, scope?, h.stmt]
  cases hnode : t.arena.stmt s with
  | error fault => rfl
  | ok node =>
    show Except.ok (if node.ownsScope then some _ else none) = .ok (if node.ownsScope then _ else _)
    split_ifs with howns
    · rw [hs ((Arena.owns_eq hnode).trans howns)]
    · rfl

namespace Resolver

namespace Leaves

variable {o : Outcome} {env env' : Env} {opens : Program → Bool}

/-- What a run notes on an expression is what it found there. -/
theorem admits_parens (h : Leaves r r₁ t t₁ root o env) (e p : ExprId) :
    (Comparison.parens e p (t₁.notes.type e)).Admits o := by
  rintro f hf rfl
  rw [Notes.type, h.note f hf]

/-- A run on the program with the parentheses leaves the notes of a run on the program without
them. -/
theorem note_enclosed (h₁ : Leaves r r₁ t t₁ root o env)
    (h₂ : Leaves r' r₂ t' t₂ root (r'.reference t' opens root).1 env')
    (wf' : t'.arena.WellFormed) (hroot' : t'.contains (.stmt root))
    (hfound : FindsEnclosed e p o.findings (r'.reference t' opens root).1.findings)
    (hx : t'.arena.Below (.stmt root) (.expr x)) :
    t₂.notes.expr x = if x = p then { type := t₁.notes.type e } else t₁.notes.expr x := by
  have hnote := h₂.note_of_below wf' hroot' hx
  obtain ⟨f, hf, hfnote⟩ := Option.map_eq_some_iff.1 hnote
  have hfx : f.expr = x := by simpa using List.find?_some hf
  have hmem := List.mem_of_find?_eq_some hf
  rw [← hfnote]
  split_ifs with hxp
  · obtain ⟨g, hg, hge, hgnote⟩ := hfound.new f hmem (hfx.trans hxp)
    rw [hgnote, Notes.type, ← hge, h₁.note g hg]
  · rw [← hfx, h₁.note f (hfound.old f hmem (hfx ▸ hxp))]

/-- A run on the program with the parentheses leaves the scopes of a run on the program without
them. -/
theorem scope?_enclosed (h₁ : Leaves r r₁ t t₁ root (r.reference t t.arena.opens root).1 env)
    (h₂ : Leaves r r₂ t' t₂ root o env) (h : t.arena.Encloses t'.arena e p)
    (wf : t.arena.WellFormed) (hroot : t.contains (.stmt root)) (hnotes : t'.notes = t.notes)
    (hscopes : o.scopes = (r.reference t t.arena.opens root).1.scopes) (s : StmtId) :
    t₂.scope? s = t₁.scope? s := by
  have hencloses : t₁.arena.Encloses t₂.arena e p := by
    rw [h₁.arena, h₂.arena]
    exact h
  refine Tree.scope?_enclosed hencloses fun howns => ?_
  rw [h₁.arena] at howns
  by_cases hs : t.arena.Below (.stmt root) (.stmt s)
  · obtain ⟨scope, hmem⟩ := exists_scope wf hroot r hs howns
    exact (h₂.scope _ (hscopes ▸ hmem)).trans (h₁.scope _ hmem).symm
  by_cases hout : s ∈ t.arena.ownersAbove (.stmt root)
  · have hframes := h₂.frames.trans h₁.frames.symm
    rw [Arena.framesAbove, Arena.framesAbove, h.ownersAbove_stmt wf] at hframes
    exact List.map_inj_left.1 hframes s hout
  · rw [h₁.scope_of_not_below hs hout,
      h₂.scope_of_not_below (fun hb => hs (h.below_stmt wf hb)) (h.ownersAbove_stmt wf root ▸ hout),
      hnotes]

end Leaves

/-- An expression below the root that no member access, subscript, call or optional link is applied
to can be put in parentheses. A run then gives the parentheses the type that it gives the expression
without them, leaves the same note on every other expression and the same names in every statement,
and reports the same. -/
theorem resolveTypes_parenthesized (hmode : r.skipsResolved = false) (wf : t.arena.WellFormed)
    (he : t.arena.Below (.stmt root) (.expr e)) (hreceiver : t.arena.isReceiver e = .ok false) :
    ∃ t' p t₁ t₂ r₁, t.wrapExpr e Tree.parenthesize = .ok (t', .ok p) ∧
      t.contains (.expr p) = false ∧ r.resolveTypes t root = .ok (t₁, r₁) ∧
      r.resolveTypes t' root = .ok (t₂, r₁) ∧ t₂.notes.type p = t₁.notes.type e ∧
      (∀ x, x ≠ p → t₂.notes.expr x = t₁.notes.expr x) ∧ ∀ s, t₂.scope? s = t₁.scope? s := by
  obtain ⟨hroot, q, hq⟩ : t.contains (.stmt root) ∧ ∃ q, t.arena.Parent (.expr e) q := by
    rcases Relation.ReflTransGen.cases_head (wf.below_iff.1 he) with heq | ⟨q, hq, -⟩
    · cases heq
    · rcases he.eq_or_child with heq | ⟨c, ⟨cs, hcs, -⟩, -⟩
      · cases heq
      · exact ⟨Arena.contains_of_children hcs, q, hq⟩
  obtain ⟨t', p, hwrap, hnotes, h⟩ := Tree.exists_wrapExpr_parenthesize wf hq
  have wf' : t'.arena.WellFormed := h.wellFormed wf
  have hroot' : t'.contains (.stmt root) := h.contains_old hroot
  obtain ⟨t₁, r₁, hrun₁, h₁⟩ := run_leaves wf hroot (restorable_of_not_skips hmode)
  obtain ⟨t₂, r₂, hrun₂, h₂⟩ := run_leaves wf' hroot' (restorable_of_not_skips hmode)
  have hstart : t'.arena.framesAbove t'.notes (.stmt root) =
      t.arena.framesAbove t.notes (.stmt root) := by
    rw [Arena.framesAbove, h.ownersAbove_stmt wf, hnotes]
    rfl
  obtain ⟨henv, hmatch⟩ : (r.reference t' t'.arena.opens root).2 =
      (r.reference t t.arena.opens root).2 ∧ (Comparison.parens e p (t₁.notes.type e)).Matches
        (r.reference t t.arena.opens root).1 (r.reference t' t'.arena.opens root).1 := by
    rw [reference, hstart]
    exact h.walk_compares wf (wf.enclosable hreceiver _) r.lexicon hroot {} _ (h₁.admits_parens e p)
  have hnew : ∀ x, t'.arena.Below (.stmt root) (.expr x) →
      t₂.notes.expr x = if x = p then { type := t₁.notes.type e } else t₁.notes.expr x :=
    fun x hx => h₁.note_enclosed h₂ wf' hroot' hmatch.findings hx
  have hr : r₂ = r₁ := by
    have hdiagnostics := hmatch.diagnostics
    simp only [Comparison.parens, Diagnostic.map_id, List.map_id] at hdiagnostics
    rw [h₂.settings, h₁.settings, h₂.diagnostics hmode, h₁.diagnostics hmode, hdiagnostics]
  subst hr
  refine ⟨t', p, t₁, t₂, r₂, hwrap, h.fresh, hrun₁, hrun₂, ?_, fun x hx => ?_, fun s => ?_⟩
  · rw [Notes.type, hnew p (h.below_new wf he (by simp)), if_pos rfl]
  · by_cases hbelow : t'.arena.Below (.stmt root) (.expr x)
    · rw [hnew x hbelow, if_neg hx]
    · rw [h₂.expr_frame x hbelow, h₁.expr_frame x fun hb => hbelow (h.below_old hb), hnotes]
  · refine h₁.scope?_enclosed (henv ▸ h₂) h wf hroot hnotes ?_ s
    simpa [Comparison.parens] using hmatch.scopes

/-- The argument of `bot.speak("hello")` can be put in parentheses: these are a string, and so is
the call, as before. -/
theorem resolveTypes_parenthesized_argument :
    speech.arena.WellFormed ∧ speech.arena.Below (.stmt ⟨1⟩) (.expr ⟨2⟩) ∧
      speech.arena.isReceiver ⟨2⟩ = .ok false ∧
      ∃ t' t₁ t₂ r₁, speech.wrapExpr ⟨2⟩ Tree.parenthesize = .ok (t', .ok ⟨4⟩) ∧
        speaker.resolveTypes speech ⟨1⟩ = .ok (t₁, r₁) ∧
        speaker.resolveTypes t' ⟨1⟩ = .ok (t₂, r₁) ∧ t₁.notes.type ⟨2⟩ = some .string ∧
        t₂.notes.type ⟨4⟩ = t₁.notes.type ⟨2⟩ ∧ t₂.notes.expr ⟨3⟩ = t₁.notes.expr ⟨3⟩ := by
  have wf : speech.arena.WellFormed := Arena.wellFormed_of_check (by decide)
  have he : speech.arena.Below (.stmt ⟨1⟩) (.expr ⟨2⟩) := (wf.mem_nodes rfl rfl).1 (by decide)
  obtain ⟨t', p, t₁, t₂, r₁, hwrap, -, hrun₁, hrun₂, hp, hold, -⟩ :=
    resolveTypes_parenthesized (show speaker.skipsResolved = false from rfl) wf he rfl
  obtain rfl : p = ⟨4⟩ := by
    cases hwrap
    rfl
  refine ⟨wf, he, rfl, t', t₁, t₂, r₁, hwrap, hrun₁, hrun₂, ?_, hp, hold ⟨3⟩ (by decide)⟩
  cases hrun₁
  rfl

end Resolver
end ExprTyping
