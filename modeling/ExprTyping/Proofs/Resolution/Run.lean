import ExprTyping.Proofs.Arena.Lookup
import ExprTyping.Proofs.Lexical.Legs
import ExprTyping.Proofs.Visit.Statements
import ExprTyping.Typing.Resolver

/-!
# A run of the resolver

A run from a root forgets what is noted below the root and then visits it. It leaves what the walk
through the root's program finds, if the walk starts in the scopes around the root
(`Resolver.resolveTypes_leaves`). `Resolver.Leaves` says what that is:

* `Leaves.note_of_below`: every note below the root is one that the walk finds;
* `Leaves.agree`: two runs that follow the same walk, from trees that agree outside the root, leave
  the same notes on every expression and the same names in every statement.

A run that skips typed expressions does the same, provided that the notes below the typed
expressions are already those that the walk finds (`Restorable`).
-/

namespace ExprTyping

namespace Resolver

variable {r r' : Resolver} {t t' : Tree} {root : StmtId} {opens : Program → Bool}

/-- What gives names a meaning besides the scopes. -/
def lexicon (r : Resolver) : Lexicon := ⟨r.catalog, r.intrinsics⟩

/-! ## Forgetting -/

/-- What forgetting leaves of a note. -/
def forgotten (r : Resolver) (note : ExprNote) : ExprNote :=
  if r.skipsResolved && note.type.isSome then note else { note with binding := none }

theorem type_forgotten (r : Resolver) (note : ExprNote) : (r.forgotten note).type = note.type := by
  rw [forgotten]
  split_ifs <;> rfl

theorem forgotten_forgotten (r : Resolver) (note : ExprNote) :
    r.forgotten (r.forgotten note) = r.forgotten note := by
  by_cases h : (r.skipsResolved && note.type.isSome) = true <;> simp [forgotten, h]

/-- A note without a type or binding is as good as forgotten. -/
theorem forgotten_of_unbound {note : ExprNote} (hskips : r.skipsResolved = true)
    (h : note.type = none → note.binding = none) : r.forgotten note = note := by
  obtain ⟨type, binding, member⟩ := note
  rw [forgotten, hskips]
  cases type with
  | some type => rfl
  | none =>
    obtain rfl : binding = none := h rfl
    rfl

theorem expr_forget (notes : Notes) (n : NodeId) (e : ExprId) :
    (r.forget notes n).expr e =
      if n = .expr e then r.forgotten (notes.expr e) else notes.expr e := by
  cases n with
  | stmt s => rfl
  | expr x =>
    rw [forget, forgotten]
    by_cases hx : x = e
    · subst hx
      rw [if_pos rfl, Notes.type]
      split_ifs
      · rfl
      · rw [Notes.expr_setExpr, if_pos rfl]
    · rw [if_neg fun h => hx (NodeId.expr.inj h)]
      split_ifs
      · rfl
      · rw [Notes.expr_setExpr, if_neg hx]

theorem scope_forget (notes : Notes) (n : NodeId) (s : StmtId) :
    (r.forget notes n).scope s = if n = .stmt s then {} else notes.scope s := by
  cases n with
  | stmt x => simp [forget]
  | expr x =>
    rw [forget, if_neg fun h : NodeId.expr x = .stmt s => by cases h]
    split_ifs <;> rfl

theorem expr_forgetAll (l : List NodeId) (notes : Notes) (e : ExprId) :
    (l.foldl r.forget notes).expr e =
      if .expr e ∈ l then r.forgotten (notes.expr e) else notes.expr e := by
  induction l generalizing notes with
  | nil => rfl
  | cons n rest ih =>
    rw [List.foldl_cons, ih, expr_forget]
    by_cases hn : n = .expr e
    · rw [if_pos hn, forgotten_forgotten, ite_self, if_pos (hn ▸ List.mem_cons_self)]
    · rw [if_neg hn]
      simp only [List.mem_cons, Ne.symm hn, false_or]

theorem scope_forgetAll (l : List NodeId) (notes : Notes) (s : StmtId) :
    (l.foldl r.forget notes).scope s = if .stmt s ∈ l then {} else notes.scope s := by
  induction l generalizing notes with
  | nil => rfl
  | cons n rest ih =>
    rw [List.foldl_cons, ih, scope_forget]
    by_cases hn : n = .stmt s
    · rw [if_pos hn, ite_self, if_pos (hn ▸ List.mem_cons_self)]
    · rw [if_neg hn]
      simp only [List.mem_cons, Ne.symm hn, false_or]

/-- The notes with everything below the root forgotten. -/
structure Purged (r : Resolver) (t : Tree) (root : StmtId) (notes : Notes) : Prop where
  expr : ∀ e, t.arena.Below (.stmt root) (.expr e) →
    notes.expr e = r.forgotten (t.notes.expr e)
  expr_frame : ∀ e, ¬ t.arena.Below (.stmt root) (.expr e) → notes.expr e = t.notes.expr e
  scope : ∀ s, t.arena.Below (.stmt root) (.stmt s) → notes.scope s = {}
  scope_frame : ∀ s, ¬ t.arena.Below (.stmt root) (.stmt s) → notes.scope s = t.notes.scope s

theorem purge_purged (wf : t.arena.WellFormed) (hroot : t.contains (.stmt root)) (r : Resolver) :
    ∃ notes, r.purge t root = .ok notes ∧ Purged r t root notes := by
  obtain ⟨l, hl, hmem⟩ := wf.exists_nodes hroot
  refine ⟨l.foldl r.forget t.notes, ?_, ?_⟩
  · rw [purge, hl]
    rfl
  · exact {
      expr := fun e he => by rw [expr_forgetAll, if_pos ((hmem _).2 he)]
      expr_frame := fun e he => by rw [expr_forgetAll, if_neg fun h => he ((hmem _).1 h)]
      scope := fun s hs => by rw [scope_forgetAll, if_pos ((hmem _).2 hs)]
      scope_frame := fun s hs => by rw [scope_forgetAll, if_neg fun h => hs ((hmem _).1 h)] }

/-! ## What a run leaves -/

/-- The run that led from `t` to `t'` left what the walk found below the root, and outside it only
the names that the walk declared in the innermost scope around the root. -/
structure Leaves (r r' : Resolver) (t t' : Tree) (root : StmtId) (o : Outcome) (env : Env) :
    Prop where
  arena : t'.arena = t.arena
  note : ∀ f ∈ o.findings, t'.notes.expr f.expr = f.note
  scope : ∀ x ∈ o.scopes, t'.notes.scope x.1 = x.2
  expr_frame : ∀ e, ¬ t.arena.Below (.stmt root) (.expr e) → t'.notes.expr e = t.notes.expr e
  scope_frame : ∀ s, ¬ t.arena.Below (.stmt root) (.stmt s) → ¬ t.arena.WritesAbove root s →
    t'.notes.scope s = t.notes.scope s
  frames : t.arena.framesAbove t'.notes (.stmt root) = env
  settings : r' = { r with diagnostics := r'.diagnostics }
  diagnostics : r.skipsResolved = false → r'.diagnostics = r.diagnostics ++ o.diagnostics

/-- The walk that a run follows: it goes through the root's program and starts in the scopes around
the root. -/
def reference (r : Resolver) (t : Tree) (opens : Program → Bool) (root : StmtId) : Outcome × Env :=
  r.lexicon.walk opens (t.arena.program root) {} (t.arena.framesAbove t.notes (.stmt root))

theorem exists_reference (wf : t.arena.WellFormed) (hroot : t.contains (.stmt root))
    (r : Resolver) (opens : Program → Bool) :
    ∃ P, t.arena.Holds P ∧ P.id = root ∧ r.reference t opens root =
      r.lexicon.walk opens P {} (t.arena.framesAbove t.notes (.stmt P.id)) := by
  refine ⟨_, wf.holds_program hroot, Arena.program_id .., ?_⟩
  rw [Arena.program_id]
  rfl

/-- A walk through a root with a frame leaves the scopes around the root as they are. -/
theorem reference_env_of_owns (wf : t.arena.WellFormed) (hroot : t.contains (.stmt root))
    (howns : t.arena.owns root = true) (r : Resolver) :
    (r.reference t t.arena.opens root).2 = t.arena.framesAbove t.notes (.stmt root) := by
  obtain ⟨P, hP, rfl, href⟩ := exists_reference wf hroot r t.arena.opens
  rw [href]
  exact Lexicon.walk_env_of_opens _ _ howns _ _

/-- The notes below the typed expressions are those that the walk finds. -/
def Restorable (r : Resolver) (t : Tree) (opens : Program → Bool) (root : StmtId) : Prop :=
  ∃ target : ExprId → ExprNote,
    (∀ f ∈ (r.reference t opens root).1.findings, target f.expr = f.note) ∧
    ∀ e, t.arena.Below (.stmt root) (.expr e) → (t.notes.type e).isSome →
      ∀ x, t.arena.Below (.expr e) (.expr x) → t.notes.expr x = target x

/-- Whatever the walk finds, an expression without a type has no binding. -/
theorem binding_of_target (wf : t.arena.WellFormed) (hroot : t.contains (.stmt root))
    {target : ExprId → ExprNote}
    (htarget : ∀ f ∈ (r.reference t opens root).1.findings, target f.expr = f.note) {e : ExprId}
    (he : t.arena.Below (.stmt root) (.expr e)) (htype : (target e).type = none) :
    (target e).binding = none := by
  obtain ⟨P, hP, rfl, href⟩ := exists_reference wf hroot r opens
  rw [href] at htarget
  obtain ⟨K, env, n, hK, rfl, hleaves, hsub⟩ := Lexicon.exists_context r.lexicon opens wf hP he {}
    (t.arena.framesAbove t.notes (.stmt P.id))
  have hn : target K.id = n := htarget _ (hsub Lexicon.own_mem_findings)
  rw [hn] at htype ⊢
  exact Lexicon.binding_of_leaves hleaves htype

theorem prepared_of_restorable (wf : t.arena.WellFormed) (hroot : t.contains (.stmt root))
    {notes : Notes} (purged : Purged r t root notes) {target : ExprId → ExprNote}
    (hskips : r.skipsResolved = true)
    (htarget : ∀ f ∈ (r.reference t opens root).1.findings, target f.expr = f.note)
    (hnotes : ∀ e, t.arena.Below (.stmt root) (.expr e) → (t.notes.type e).isSome →
      ∀ x, t.arena.Below (.expr e) (.expr x) → t.notes.expr x = target x) (diagnostics) :
    Prepared (r.setting t.arena) target ⟨notes, diagnostics⟩ (.stmt root) := by
  intro e he hkept x hx
  have htype : (t.notes.type e).isSome := by
    have hkept : (if r.skipsResolved = true then notes.type e else none).isSome := hkept
    rw [if_pos hskips, Notes.type, purged.expr e he, type_forgotten] at hkept
    exact hkept
  have hbelow : t.arena.Below (.stmt root) (.expr x) := Relation.ReflTransGen.trans he hx
  rw [purged.expr x hbelow, hnotes e he htype x hx]
  exact forgotten_of_unbound hskips (binding_of_target wf hroot htarget hbelow)

/-- After the purge, the root's visit starts from where the walk starts. -/
theorem exists_ready (wf : t.arena.WellFormed) (hroot : t.contains (.stmt root))
    (hskips : r.skipsResolved = true → r.Restorable t opens root) :
    ∃ notes target P, r.purge t root = .ok notes ∧ Purged r t root notes ∧ t.arena.Holds P ∧
      P.id = root ∧ r.reference t opens root =
        r.lexicon.walk opens P {} (t.arena.framesAbove t.notes (.stmt P.id)) ∧
      Ready (r.setting t.arena) opens target P {} (t.arena.framesAbove t.notes (.stmt P.id))
        ⟨notes, r.diagnostics⟩ := by
  obtain ⟨notes, hnotes, purged⟩ := purge_purged wf hroot r
  obtain ⟨target, hprepared, htarget⟩ : ∃ target : ExprId → ExprNote,
      Prepared (r.setting t.arena) target ⟨notes, r.diagnostics⟩ (.stmt root) ∧
        (r.skipsResolved = true →
          ∀ f ∈ (r.reference t opens root).1.findings, target f.expr = f.note) := by
    cases h : r.skipsResolved with
    | false => exact ⟨t.notes.expr, .of_not_skips h _ _, fun h => by cases h⟩
    | true =>
      obtain ⟨target, htarget, hnotes⟩ := hskips h
      exact ⟨target, prepared_of_restorable wf hroot purged h htarget hnotes _, fun _ => htarget⟩
  obtain ⟨P, hP, rfl, href⟩ := exists_reference wf hroot r opens
  rw [href] at htarget
  refine ⟨notes, target, P, hnotes, purged, hP, rfl, href, ?_⟩
  exact {
    frames := List.map_congr_left fun s hs =>
      purged.scope_frame s (wf.not_below_of_mem_ownersAbove hs)
    own := fun _ => purged.scope _ (.refl _)
    clean := fun s hs _ => purged.scope s hs
    prepared := hprepared
    target_eq := htarget }

/-- A run leaves what the walk finds, if the walk has a frame for every statement in which names
can be declared. -/
theorem resolveTypes_leaves (wf : t.arena.WellFormed) (hroot : t.contains (.stmt root))
    (hopens : ∀ Q, t.arena.Holds Q → opens Q = t.arena.owns Q.id)
    (hskips : r.skipsResolved = true → r.Restorable t opens root) :
    ∃ t' r', r.resolveTypes t root = .ok (t', r') ∧
      Leaves r r' t t' root (r.reference t opens root).1 (r.reference t opens root).2 := by
  obtain ⟨notes, target, P, hnotes, purged, hP, rfl, href, ready⟩ := exists_ready wf hroot hskips
  rw [href]
  obtain ⟨rank, hle, hrank⟩ := wf.exists_stmtRank
  obtain ⟨q, hq, heffect, hframes⟩ := Setting.performs (s := r.setting t.arena) wf hrank
    hopens hP (Nat.lt_succ_of_le (hle P.id)) ready
  refine ⟨{ t with notes := q.notes }, { r with diagnostics := q.diagnostics }, ?_, ?_⟩
  · rw [resolveTypes, if_pos hroot, hnotes]
    show (r.run t notes fun s => s.visitStmtWithin (s.arena.stmts.size + 1) P.id).map (·.2) = _
    rw [run]
    have hq : ((r.setting t.arena).visitStmtWithin ((r.setting t.arena).arena.stmts.size + 1)
      P.id).run ⟨notes, r.diagnostics⟩ = .ok ((), q) := hq
    rw [hq]
    rfl
  · exact {
      arena := rfl
      note := heffect.findings
      scope := heffect.scopes
      expr_frame := fun e he => (heffect.expr_frame e
        fun hc => he (Arena.covers_singleton.1 hc)).trans (purged.expr_frame e he)
      scope_frame := fun s hs hw => (heffect.scope_frame s
        (fun hc => hs (Arena.covers_singleton.1 hc)) hw).trans (purged.scope_frame s hs)
      frames := hframes
      settings := rfl
      diagnostics := heffect.diagnostics }

/-- A run leaves what the walk with a frame for every statement in which names can be declared
finds. -/
theorem run_leaves (wf : t.arena.WellFormed) (hroot : t.contains (.stmt root))
    (hskips : r.skipsResolved = true → r.Restorable t t.arena.opens root) :
    ∃ t' r', r.resolveTypes t root = .ok (t', r') ∧ Leaves r r' t t' root
      (r.reference t t.arena.opens root).1 (r.reference t t.arena.opens root).2 :=
  resolveTypes_leaves wf hroot (fun _ _ => rfl) hskips

theorem restorable_of_not_skips (hmode : r.skipsResolved = false) (h : r.skipsResolved = true) :
    r.Restorable t opens root := by
  rw [hmode] at h
  cases h

end Resolver

/-! ## Trees that agree outside a root -/

/-- The trees have the same nodes and differ at most in what is noted below the root. -/
structure Tree.AgreeOutside (t t' : Tree) (root : StmtId) : Prop where
  arena : t'.arena = t.arena
  expr : ∀ e, ¬ t.arena.Below (.stmt root) (.expr e) → t'.notes.expr e = t.notes.expr e
  scope? : ∀ s, ¬ t.arena.Below (.stmt root) (.stmt s) → t'.scope? s = t.scope? s

namespace Tree

variable {t t' t'' : Tree} {root s : StmtId}

/-- Names that are declared where none can be are not seen. -/
theorem scope?_congr (ha : t'.arena = t.arena)
    (h : t.arena.owns s = true → t'.notes.scope s = t.notes.scope s) :
    t'.scope? s = t.scope? s := by
  rw [scope?, scope?, ha]
  cases hs : t.arena.stmt s with
  | error fault => rfl
  | ok node =>
    show Except.ok (if node.ownsScope then some _ else none) = .ok (if node.ownsScope then _ else _)
    split_ifs with howns
    · rw [h ((Arena.owns_eq hs).trans howns)]
    · rfl

/-- What holds of all names that are declared above the root holds of the scopes around it. -/
theorem framesAbove_all {condition : Definition → Prop} (wf : t.arena.WellFormed)
    (h : ∀ s scope, Relation.TransGen t.arena.Parent (.stmt root) (.stmt s) →
      t.scope? s = .ok (some scope) → scope.All condition) :
    (t.arena.framesAbove t.notes (.stmt root)).All condition := by
  intro scope hscope
  obtain ⟨s, hs, rfl⟩ := List.mem_map.1 hscope
  obtain ⟨n, hn, hs'⟩ := List.mem_filterMap.1 hs
  obtain rfl := Arena.owner?_eq_some hs'
  exact h s _ (wf.transGen_of_mem_ancestors hn)
    (scope?_of_owns (Arena.owns_of_mem_ownersAbove hs))

theorem scope_of_scope?_eq (ha : t'.arena = t.arena) (h : t'.scope? s = t.scope? s)
    (howns : t.arena.owns s = true) : t'.notes.scope s = t.notes.scope s := by
  rw [scope?_of_owns howns, scope?_of_owns (ha ▸ howns)] at h
  exact Option.some.inj (Except.ok.inj h)

namespace AgreeOutside

theorem refl (t : Tree) (root : StmtId) : AgreeOutside t t root where
  arena := rfl
  expr _ _ := rfl
  scope? _ _ := rfl

/-- Another note on an expression below the root. -/
theorem modifyNote (h : AgreeOutside t t' root) {e : ExprId}
    (he : t.arena.Below (.stmt root) (.expr e)) (change : ExprNote → ExprNote) :
    AgreeOutside t (t'.modifyNote e change) root where
  arena := h.arena
  expr x hx := by
    have hne : e ≠ x := by
      rintro rfl
      exact hx he
    show (t'.notes.setExpr e _).expr x = _
    rw [Notes.expr_setExpr, if_neg hne, h.expr x hx]
  scope? := h.scope?

/-- Other names in a statement below the root. -/
theorem setScope (h : AgreeOutside t t' root) (hs : t.arena.Below (.stmt root) (.stmt s))
    (scope : Scope) : AgreeOutside t { t' with notes := t'.notes.setScope s scope } root where
  arena := h.arena
  expr := h.expr
  scope? x hx := by
    have hne : s ≠ x := by
      rintro rfl
      exact hx hs
    rw [← h.scope? x hx]
    refine scope?_congr rfl fun _ => ?_
    show (t'.notes.setScope s scope).scope x = _
    rw [Notes.scope_setScope, if_neg hne]

theorem trans (h : AgreeOutside t t' root) (h' : AgreeOutside t' t'' root) :
    AgreeOutside t t'' root where
  arena := h'.arena.trans h.arena
  expr e he := (h'.expr e (h.arena ▸ he)).trans (h.expr e he)
  scope? s hs := (h'.scope? s (h.arena ▸ hs)).trans (h.scope? s hs)

/-- The scopes around the root are not below it. -/
theorem framesAbove_eq (h : AgreeOutside t t' root) (wf : t.arena.WellFormed) :
    t'.arena.framesAbove t'.notes (.stmt root) = t.arena.framesAbove t.notes (.stmt root) := by
  rw [h.arena]
  apply List.map_congr_left
  intro s hs
  have hout := h.scope? s (wf.not_below_of_mem_ownersAbove hs)
  exact scope_of_scope?_eq h.arena hout (Arena.owns_of_mem_ownersAbove hs)

/-- In trees that agree outside the root, the walk is the same. -/
theorem reference_eq (h : AgreeOutside t t' root) (wf : t.arena.WellFormed) {r r' : Resolver}
    (hlexicon : r'.lexicon = r.lexicon) :
    r'.reference t' t'.arena.opens root = r.reference t t.arena.opens root := by
  rw [Resolver.reference, h.framesAbove_eq wf, h.arena, hlexicon]
  rfl

end AgreeOutside
end Tree

namespace Resolver

/-! ## Comparing runs -/

/-- Every statement below the root in which names can be declared has a scope that the walk
finds. -/
theorem exists_scope (wf : t.arena.WellFormed) (hroot : t.contains (.stmt root)) (r : Resolver)
    {s : StmtId} (hs : t.arena.Below (.stmt root) (.stmt s)) (howns : t.arena.owns s = true) :
    ∃ scope, (s, scope) ∈ (r.reference t t.arena.opens root).1.scopes := by
  obtain ⟨P, hP, rfl, href⟩ := exists_reference wf hroot r t.arena.opens
  rw [href]
  exact Lexicon.exists_scope r.lexicon t.arena.opens (fun _ _ => rfl) hP hs howns _ _

namespace Leaves

variable {o : Outcome} {env : Env}

/-- Every note below the root is one that the walk finds. -/
theorem note_of_below (wf : t.arena.WellFormed) (hroot : t.contains (.stmt root))
    (h : Leaves r r' t t' root (r.reference t opens root).1 env) {e : ExprId}
    (he : t.arena.Below (.stmt root) (.expr e)) :
    (r.reference t opens root).1.noteOn? e = some (t'.notes.expr e) := by
  obtain ⟨P, hP, rfl, href⟩ := exists_reference wf hroot r opens
  rw [href] at h ⊢
  obtain ⟨K, env', n, hK, rfl, -, hsub⟩ := Lexicon.exists_context r.lexicon opens wf hP he {}
    (t.arena.framesAbove t.notes (.stmt P.id))
  refine Outcome.noteOn?_eq ⟨⟨K.id, n⟩, hsub Lexicon.own_mem_findings, rfl⟩ ?_
  intro f hf hfe
  rw [← hfe, h.note f hf]

theorem note_of_noteOn? (h : Leaves r r' t t' root o env) {e : ExprId} {note : ExprNote}
    (hnote : o.noteOn? e = some note) : t'.notes.expr e = note := by
  obtain ⟨f, hf, rfl⟩ := Option.map_eq_some_iff.1 hnote
  have hfe : f.expr = e := by simpa using List.find?_some hf
  rw [← hfe, h.note f (List.mem_of_find?_eq_some hf)]

theorem scope_of_not_below (h : Leaves r r' t t' root o env) {s : StmtId}
    (hs : ¬ t.arena.Below (.stmt root) (.stmt s)) (hout : s ∉ t.arena.ownersAbove (.stmt root)) :
    t'.notes.scope s = t.notes.scope s :=
  h.scope_frame s hs fun hw => hout (List.mem_of_mem_head? hw)

/-- A run that leaves the scopes around the root as they were changes nothing outside the root. -/
theorem agreeOutside (h : Leaves r r' t t' root o env)
    (henv : env = t.arena.framesAbove t.notes (.stmt root)) : t.AgreeOutside t' root where
  arena := h.arena
  expr := h.expr_frame
  scope? s hs := by
    refine Tree.scope?_congr h.arena fun _ => ?_
    by_cases hout : s ∈ t.arena.ownersAbove (.stmt root)
    · exact List.map_inj_left.1 (h.frames.trans henv) s hout
    · exact h.scope_of_not_below hs hout

/-- Two runs from trees that agree outside the root leave the same, if they follow the same
walk. -/
theorem agree {r₁ r₁' r₂ r₂' : Resolver} {t₁ t₁' t₂ t₂' : Tree}
    (h₁ : Leaves r₁ r₁' t₁ t₁' root (r₁.reference t₁ t₁.arena.opens root).1 env)
    (h₂ : Leaves r₂ r₂' t₂ t₂' root (r₁.reference t₁ t₁.arena.opens root).1 env)
    (wf : t₁.arena.WellFormed) (hroot : t₁.contains (.stmt root))
    (h : t₁.AgreeOutside t₂ root) :
    (∀ e, t₂'.notes.expr e = t₁'.notes.expr e) ∧ ∀ s, t₂'.scope? s = t₁'.scope? s := by
  constructor
  · intro e
    by_cases he : t₁.arena.Below (.stmt root) (.expr e)
    · exact h₂.note_of_noteOn? (h₁.note_of_below wf hroot he)
    · rw [h₁.expr_frame e he, h₂.expr_frame e (h.arena ▸ he), h.expr e he]
  · intro s
    refine Tree.scope?_congr (by rw [h₁.arena, h₂.arena, h.arena]) fun howns => ?_
    rw [h₁.arena] at howns
    by_cases hs : t₁.arena.Below (.stmt root) (.stmt s)
    · obtain ⟨scope, hmem⟩ := exists_scope wf hroot r₁ hs howns
      rw [h₁.scope _ hmem, h₂.scope _ hmem]
    by_cases hout : s ∈ t₁.arena.ownersAbove (.stmt root)
    · have hframes : t₁.arena.framesAbove t₂'.notes (.stmt root) =
          t₁.arena.framesAbove t₁'.notes (.stmt root) := by
        rw [h₁.frames, ← h₂.frames, h.arena]
      exact List.map_inj_left.1 hframes s hout
    · rw [h₁.scope_of_not_below hs hout, h₂.scope_of_not_below (h.arena ▸ hs) (h.arena ▸ hout)]
      exact Tree.scope_of_scope?_eq h.arena (h.scope? s hs) howns

end Leaves

end Resolver
end ExprTyping
