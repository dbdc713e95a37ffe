import ExprTyping.Proofs.Lexical.Respelling
import ExprTyping.Proofs.Resolution.Node

/-!
# Constructing a value

A value of a type is made by a call of the type's name, `t(…)`, or of its `init`, `t.init(…)`. It
makes no difference which (`Resolver.resolve_respelled`): typing two programs that differ in this
alone, in the same scopes, leaves the same notes on all counterparts and reports the same issues
about them.

Either way the call makes a value of the type if none of its arguments has failed and the type
itself has a constructor with the labels of the call, and has failed otherwise
(`Tree.TreatsAsConstruction`).

The two programs are walked through in step (`Arena.Respells.walk_compares`); what the call is, is
then read off the notes in one of them.
-/

namespace ExprTyping

variable {r r' r₁ r₂ : Resolver} {t t' t₁ t₂ : Tree} {R : Respelling} {n : NodeId} {x : ExprId}
  {subject : Ty} {reported : List Diagnostic}

/-- In a typed tree, the call makes a value of the type if no argument has failed and the type
itself has a constructor with the labels of the call; otherwise it has failed. Why there is no such
constructor is reported about the call, unless an argument has failed. -/
structure Tree.TreatsAsConstruction (t : Tree) (catalog : Catalog) (reported : List Diagnostic)
    (call : ExprId) (arguments : List (Argument ExprId)) (subject : Ty) : Prop where
  made : (∀ z ∈ arguments, t.notes.type z.value ≠ some .errorType) →
    catalog.Constructs subject (argumentLabels arguments) → t.notes.type call = some subject
  failed : ¬ ((∀ z ∈ arguments, t.notes.type z.value ≠ some .errorType) ∧
    catalog.Constructs subject (argumentLabels arguments)) → t.notes.type call = some .errorType
  reported_iff : ∀ i, ⟨i, .expr call⟩ ∈ reported ↔
    (∀ z ∈ arguments, t.notes.type z.value ≠ some .errorType) ∧
      catalog.Lacks subject (argumentLabels arguments) i

namespace Resolver

section

variable (h : t.arena.Respells t'.arena R n) (wf : t.arena.WellFormed) (hn : t.contains n)
include h wf hn

omit wf in
/-- The second tree has the counterpart of the node. -/
theorem contains_respelled : t'.contains (n.map R.expr R.stmt) := by
  cases n with
  | stmt s =>
    obtain ⟨node, hnode⟩ := Arena.exists_stmt hn
    obtain ⟨_, hnew⟩ := h.new_stmt s node (.refl _) hnode
    exact Arena.contains_of_stmt hnew
  | expr e =>
    obtain ⟨node, hnode⟩ := Arena.exists_expr hn
    exact h.contains_new (.refl _) hnode

/-- What there is to find at a node and at its counterpart. -/
theorem outcome_respelled (wf' : t'.arena.WellFormed)
    (hscopes : t'.arena.framesAbove t'.notes (n.map R.expr R.stmt) =
      t.arena.framesAbove t.notes n)
    (hadmits : (Comparison.respelled R).Admits (r.outcome t n)) :
    (Comparison.respelled R).Matches (r.outcome t n) (r.outcome t' (n.map R.expr R.stmt)) := by
  cases n with
  | stmt root =>
    have hscopes : t'.arena.framesAbove t'.notes (.stmt (R.stmt root)) = _ := hscopes
    rw [NodeId.map, outcome, outcome, reference, reference, hscopes]
    exact (h.walk_compares wf wf' r.lexicon rfl hn {} _ hadmits).2
  | expr e =>
    have hscopes : t'.arena.framesAbove t'.notes (.expr (R.expr e)) = _ := hscopes
    rw [NodeId.map, outcome, outcome, hscopes]
    exact (h.term_compares wf wf' r.lexicon (.refl _) hn _ hadmits).2

/-- What the call is, from the notes that are left. -/
theorem constructs_of_leaves
    (hnote : ∀ f ∈ (r.outcome t n).findings, t₁.notes.expr f.expr = f.note)
    (hname : t₁.notes.type R.name = some (.metatype subject)) :
    t₁.TreatsAsConstruction r.catalog (r.outcome t n).diagnostics R.call R.arguments subject := by
  obtain ⟨_, hcall⟩ := h.expr_call
  obtain ⟨env, note, hleaves, hfindings, hdiagnostics⟩ := r.exists_typing wf hn h.below_call
  have found : ∀ d ∈ (r.lexicon.judge env (t.arena.term R.call)).findings note,
      t₁.notes.expr d.expr = d.note := fun d hd => hnote d (hfindings hd)
  have noteCall := Lexicon.note_call wf hcall hleaves found
  constructor
  case made =>
    intro harguments hconstructs
    rw [Notes.type, noteCall, h.label_construction wf _ found hname harguments]
    exact Rule.type_construction hconstructs
  case failed =>
    intro hnot
    by_cases harguments : ∀ z ∈ R.arguments, t₁.notes.type z.value ≠ some .errorType
    · rw [Notes.type, noteCall, h.label_construction wf _ found hname harguments]
      exact Rule.type_construction_of_not fun hconstructs => hnot ⟨harguments, hconstructs⟩
    · simp only [not_forall, not_not] at harguments
      obtain ⟨z, hz, hfailed⟩ := harguments
      rw [Notes.type, noteCall, h.label_failed wf _ found hz hfailed]
      rfl
  case reported_iff =>
    intro i
    constructor
    · intro hi
      obtain ⟨env', hissue, hsub⟩ := r.exists_reporting wf hn hi
      have found' := fun d hd => hnote d (hsub hd)
      have harguments : ∀ z ∈ R.arguments, t₁.notes.type z.value ≠ some .errorType := by
        intro z hz hfailed
        rw [h.label_failed wf _ found' hz hfailed] at hissue
        cases hissue
      rw [h.label_construction wf _ found' hname harguments] at hissue
      exact ⟨harguments, Rule.issue_construction.1 hissue⟩
    · rintro ⟨harguments, hi⟩
      have hlabel := h.label_construction wf r.lexicon found hname harguments
      have hissue := (congrArg Verdict.issue hlabel).trans (Rule.issue_construction.2 hi)
      refine hdiagnostics ?_
      rw [wf.diagnostics_term r.lexicon env hcall, hissue]
      exact List.mem_append_right _ (List.mem_singleton.2 rfl)

end

/-- Two programs differ in the spelling of one call: the first one calls a name, the second one the
name's `init`. They are typed in the same scopes. If the name means a type, the same notes are left
on an expression and its counterpart, and the same is reported about them. The call makes a value of
the type exactly if no argument has failed and the type itself has a constructor with the labels of
the call. -/
theorem resolve_respelled (hmode : r.skipsResolved = false) (wf : t.arena.WellFormed)
    (wf' : t'.arena.WellFormed) (hn : t.contains n) (h : t.arena.Respells t'.arena R n)
    (hscopes : t'.arena.framesAbove t'.notes (n.map R.expr R.stmt) =
      t.arena.framesAbove t.notes n) :
    ∃ t₁ r₁ t₂ r₂, r.resolve t n = .ok (t₁, r₁) ∧
      r.resolve t' (n.map R.expr R.stmt) = .ok (t₂, r₂) ∧
      ∀ subject, t₁.notes.type R.name = some (.metatype subject) →
        (∀ x, t.arena.Below n (.expr x) → t₂.notes.expr (R.expr x) = t₁.notes.expr x) ∧
        ∃ reported, r₁.diagnostics = r.diagnostics ++ reported ∧
          r₂.diagnostics = r.diagnostics ++ reported.map (.map R.expr R.stmt) ∧
          t₁.TreatsAsConstruction r.catalog reported R.call R.arguments subject := by
  have hn' := contains_respelled h hn
  obtain ⟨t₁, r₁, hrun₁, -, hnote₁, hdiagnostics₁⟩ := resolve_leaves hmode wf hn
  obtain ⟨t₂, r₂, hrun₂, -, hnote₂, hdiagnostics₂⟩ := resolve_leaves hmode wf' hn'
  refine ⟨t₁, r₁, t₂, r₂, hrun₁, hrun₂, fun subject hname => ?_⟩
  have hadmits : (Comparison.respelled R).Admits (r.outcome t n) := by
    rintro d hd hexpr
    exact ⟨subject, by rw [← hnote₁ d hd, hexpr]; exact hname⟩
  have hmatch := outcome_respelled h wf hn wf' hscopes hadmits
  refine ⟨fun x hx => ?_, (r.outcome t n).diagnostics, hdiagnostics₁, ?_,
    constructs_of_leaves h wf hn hnote₁ hname⟩
  · obtain ⟨env, note, -, hfindings, -⟩ := r.exists_typing wf hn hx
    have hmem := hfindings (t.arena.own_mem_findings r.lexicon env x note)
    rw [hnote₁ _ hmem]
    exact hnote₂ _ (hmatch.findings _ hmem)
  · rw [hdiagnostics₂, hmatch.diagnostics]
    rfl

end Resolver

/-- `{ Widget(title: "OK") }` -/
def named : Tree where
  arena := {
    exprs := #[
      ⟨.identifier "Widget", some (.expr ⟨2⟩)⟩,
      ⟨.constant (.string "OK"), some (.expr ⟨2⟩)⟩,
      ⟨.call ⟨0⟩ [⟨some "title", ⟨1⟩⟩], some (.stmt ⟨0⟩)⟩]
    stmts := #[
      ⟨.expressions [⟨2⟩], some ⟨1⟩, false⟩,
      ⟨.block [⟨0⟩], none, true⟩] }

/-- `{ Widget.init(title: "OK") }` -/
def initialized : Tree where
  arena := {
    exprs := #[
      ⟨.identifier "Widget", some (.expr ⟨1⟩)⟩,
      ⟨.member ⟨0⟩ "init", some (.expr ⟨3⟩)⟩,
      ⟨.constant (.string "OK"), some (.expr ⟨3⟩)⟩,
      ⟨.call ⟨1⟩ [⟨some "title", ⟨2⟩⟩], some (.stmt ⟨0⟩)⟩]
    stmts := #[
      ⟨.expressions [⟨3⟩], some ⟨1⟩, false⟩,
      ⟨.block [⟨0⟩], none, true⟩] }

/-- What stands where in the two programs. -/
def initSpelling : Respelling where
  expr x := if x = ⟨0⟩ then ⟨0⟩ else ⟨x.index + 1⟩
  stmt := id
  call := ⟨2⟩
  name := ⟨0⟩
  arguments := [⟨some "title", ⟨1⟩⟩]
  init := ⟨1⟩

theorem Arena.respells_initialized :
    named.arena.Respells initialized.arena initSpelling (.stmt ⟨1⟩) where
  below_call := .of_child ⟨_, rfl, List.mem_cons_self⟩ (.single ⟨_, rfl, List.mem_cons_self⟩)
  expr_call := ⟨_, rfl⟩
  expr_name := ⟨_, _, rfl⟩
  new_call := ⟨_, rfl⟩
  new_init := ⟨_, rfl⟩
  new_expr := by
    rintro ⟨i⟩ node - hne hnode
    match i with
    | 0 | 1 => cases hnode; exact ⟨_, rfl⟩
    | 2 => exact absurd rfl hne
    | i + 3 => cases hnode
  new_stmt := by
    rintro ⟨i⟩ node - hnode
    match i with
    | 0 | 1 => cases hnode; exact ⟨_, rfl⟩
    | i + 2 => cases hnode
  surroundings _ hn := by cases hn

/-- A widget is made with a title. It also has a static method with the name `init`, which is never
asked for. -/
def designer : Resolver where
  catalog := {
    types := [{
      typeName := "Widget"
      constructors := [⟨[⟨"title", "title", .string⟩]⟩]
      methods := [{
        name := "init", parameters := [⟨"title", "title", .string⟩], returnType := .int,
        isStatic := true }] }]
    nodup := by simp }

/-- Both programs make a widget. -/
theorem Resolver.resolve_respelled_widget :
    named.arena.WellFormed ∧ initialized.arena.WellFormed ∧ named.contains (.stmt ⟨1⟩) ∧
      ∃ t₁ r₁ t₂ r₂, designer.resolve named (.stmt ⟨1⟩) = .ok (t₁, r₁) ∧
        designer.resolve initialized (.stmt ⟨1⟩) = .ok (t₂, r₂) ∧
        t₁.notes.type ⟨0⟩ = some (.metatype (.named "Widget")) ∧
        t₁.notes.type ⟨2⟩ = some (.named "Widget") ∧ t₂.notes.expr ⟨3⟩ = t₁.notes.expr ⟨2⟩ := by
  have wf : named.arena.WellFormed := Arena.wellFormed_of_check (by decide)
  have wf' : initialized.arena.WellFormed := Arena.wellFormed_of_check (by decide)
  have hroot : named.contains (.stmt ⟨1⟩) := by rfl
  obtain ⟨t₁, r₁, t₂, r₂, hrun₁, hrun₂, h⟩ :=
    resolve_respelled (show designer.skipsResolved = false from rfl) wf wf' hroot
      Arena.respells_initialized rfl
  have htyped : t₁.notes.type ⟨0⟩ = some (.metatype (.named "Widget")) ∧
      t₁.notes.type ⟨1⟩ = some .string := by
    cases hrun₁
    exact ⟨rfl, rfl⟩
  obtain ⟨hsame, reported, -, -, hcall⟩ := h _ htyped.1
  refine ⟨wf, wf', hroot, t₁, r₁, t₂, r₂, hrun₁, hrun₂, htyped.1, ?_, ?_⟩
  · refine hcall.made (fun z hz => ?_) ⟨_, rfl, _, List.mem_singleton.2 rfl, rfl⟩
    obtain rfl := List.mem_singleton.1 hz
    rw [htyped.2]
    simp
  · exact hsame ⟨2⟩ Arena.respells_initialized.below_call

end ExprTyping
