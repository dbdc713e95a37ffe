import ExprTyping.Proofs.Arena.WellFormed
import ExprTyping.Proofs.Lexical.Walk
import ExprTyping.Typing.Visit

/-!
# What a part of a visit does

`Effect s region writes p q o` says that a part of a visit that led from `p` to `q` left what the
outcome `o` lists, and nothing else: it changed notes only below the nodes in `region`, and besides
only the scopes of the statements in `writes`.

Parts of a visit with disjoint regions compose (`Effect.andThen`); siblings in a well-formed arena
have disjoint regions (`WellFormed.disjoint_of_append`).

`Prepared` is what a visit that skips typed expressions relies on: below such an expression the
notes are those that a full visit would leave.
-/

namespace ExprTyping

namespace Arena

variable {a : Arena}

/-- The node is one of the region or below one of them. -/
def Covers (a : Arena) (region : List NodeId) (n : NodeId) : Prop := ∃ r ∈ region, a.Below r n

theorem covers_singleton {r n : NodeId} : a.Covers [r] n ↔ a.Below r n := by
  simp [Covers]

theorem covers_append {R R' : List NodeId} {n : NodeId} :
    a.Covers (R ++ R') n ↔ a.Covers R n ∨ a.Covers R' n := by
  simp only [Covers, List.mem_append, or_and_right, exists_or]

theorem not_covers_stmt {α : Type} {xs : List α} {id : α → ExprId} {s : StmtId} :
    ¬ a.Covers (xs.map fun x => .expr (id x)) (.stmt s) := by
  rintro ⟨r, hr, h⟩
  obtain ⟨e, -, rfl⟩ := List.mem_map.1 hr
  obtain ⟨x, hx⟩ := h.of_expr
  cases hx

theorem covers_of_children {p n : NodeId} {cs : List NodeId} (h : a.children p = .ok cs)
    (hn : a.Covers cs n) : a.Below p n := by
  obtain ⟨c, hc, hcn⟩ := hn
  exact .of_child ⟨cs, h, hc⟩ hcn

/-- Different children have nothing below them in common. -/
theorem WellFormed.disjoint_of_append (wf : a.WellFormed) {p n : NodeId} {R R' : List NodeId}
    (h : a.children p = .ok (R ++ R')) (hn : a.Covers R n) : ¬ a.Covers R' n := by
  rintro ⟨c', hc', hn'⟩
  obtain ⟨c, hc, hn⟩ := hn
  have hcc : c = c' := wf.eq_of_below ⟨_, h, List.mem_append_left _ hc⟩
    ⟨_, h, List.mem_append_right _ hc'⟩ hn hn'
  exact (List.nodup_append.1 (wf.nodup_children p _ h)).2.2 c hc c' hc' hcc

end Arena

/-! ## Writing on the notes -/

namespace Notes

theorem expr_recordAll (notes : Notes) (s : StmtId) (ds : List Definition) (e : ExprId) :
    (notes.recordAll s ds).expr e = notes.expr e := by
  unfold recordAll
  induction ds generalizing notes with
  | nil => rfl
  | cons d rest ih => rw [List.foldl_cons, ih, record, expr_setScope]

theorem scope_recordAll (notes : Notes) (s x : StmtId) (ds : List Definition) :
    (notes.recordAll s ds).scope x =
      if s = x then ds.foldl Scope.record (notes.scope s) else notes.scope x := by
  unfold recordAll
  induction ds generalizing notes with
  | nil =>
    rw [List.foldl_nil, List.foldl_nil]
    split_ifs with h
    · rw [h]
    · rfl
  | cons d rest ih =>
    rw [List.foldl_cons, ih, record, scope_setScope, if_pos rfl, scope_setScope]
    split_ifs <;> rfl

end Notes

/-! ## Effects -/

variable {s : Setting} {R R' : List NodeId} {W W' : StmtId → Prop} {p q r : Progress}
  {o o' : Outcome}

/-- From `p` to `q`, the visit left what `o` lists below `R`, and changed nothing elsewhere but
the scopes of the statements in `W`. -/
structure Effect (s : Setting) (R : List NodeId) (W : StmtId → Prop) (p q : Progress)
    (o : Outcome) : Prop where
  findings : ∀ f ∈ o.findings, q.notes.expr f.expr = f.note
  finding_mem : ∀ f ∈ o.findings, s.arena.Covers R (.expr f.expr)
  scopes : ∀ x ∈ o.scopes, q.notes.scope x.1 = x.2
  scope_mem : ∀ x ∈ o.scopes, s.arena.Covers R (.stmt x.1)
  expr_frame : ∀ e, ¬ s.arena.Covers R (.expr e) → q.notes.expr e = p.notes.expr e
  scope_frame : ∀ t, ¬ s.arena.Covers R (.stmt t) → ¬ W t → q.notes.scope t = p.notes.scope t
  diagnostics : s.skipsResolved = false → q.diagnostics = p.diagnostics ++ o.diagnostics

namespace Effect

theorem refl (s : Setting) (W : StmtId → Prop) (p : Progress) : Effect s [] W p p {} where
  findings := by simp
  finding_mem := by simp
  scopes := by simp
  scope_mem := by simp
  expr_frame _ _ := rfl
  scope_frame _ _ _ := rfl
  diagnostics _ := (List.append_nil _).symm

/-- One part of a visit after another. -/
theorem andThen (h : Effect s R W p q o) (h' : Effect s R' W q r o')
    (disjoint : ∀ n, s.arena.Covers R n → ¬ s.arena.Covers R' n)
    (outside : ∀ t, s.arena.Covers R (.stmt t) → ¬ W t) :
    Effect s (R ++ R') W p r (o ++ o') where
  findings f hf := by
    rcases List.mem_append.1 hf with hf | hf
    · rw [h'.expr_frame _ (disjoint _ (h.finding_mem f hf)), h.findings f hf]
    · exact h'.findings f hf
  finding_mem f hf := by
    rw [Arena.covers_append]
    rcases List.mem_append.1 hf with hf | hf
    · exact .inl (h.finding_mem f hf)
    · exact .inr (h'.finding_mem f hf)
  scopes x hx := by
    rcases List.mem_append.1 hx with hx | hx
    · have hmem := h.scope_mem x hx
      rw [h'.scope_frame _ (disjoint _ hmem) (outside _ hmem), h.scopes x hx]
    · exact h'.scopes x hx
  scope_mem x hx := by
    rw [Arena.covers_append]
    rcases List.mem_append.1 hx with hx | hx
    · exact .inl (h.scope_mem x hx)
    · exact .inr (h'.scope_mem x hx)
  expr_frame e he := by
    rw [Arena.covers_append, not_or] at he
    rw [h'.expr_frame e he.2, h.expr_frame e he.1]
  scope_frame t ht hW := by
    rw [Arena.covers_append, not_or] at ht
    rw [h'.scope_frame t ht.2 hW, h.scope_frame t ht.1 hW]
  diagnostics hs := by
    rw [h'.diagnostics hs, h.diagnostics hs, Outcome.diagnostics_append, List.append_assoc]

/-- A larger region, into which some of the other scopes may fall. -/
theorem mono (h : Effect s R W p q o) (hR : ∀ n, s.arena.Covers R n → s.arena.Covers R' n)
    (hW : ∀ t, W t → s.arena.Covers R' (.stmt t) ∨ W' t) : Effect s R' W' p q o where
  findings := h.findings
  finding_mem f hf := hR _ (h.finding_mem f hf)
  scopes := h.scopes
  scope_mem x hx := hR _ (h.scope_mem x hx)
  expr_frame e he := h.expr_frame e fun hc => he (hR _ hc)
  scope_frame t ht hW' := h.scope_frame t (fun hc => ht (hR _ hc)) fun hw =>
    (hW t hw).elim ht hW'
  diagnostics := h.diagnostics

/-- Declaring names in a statement that may be written to. -/
theorem declare {t : StmtId} (ht : W t) (p : Progress) (ds : List Definition) :
    Effect s [] W p (p.declare t ds) {} where
  findings := by simp
  finding_mem := by simp
  scopes := by simp
  scope_mem := by simp
  expr_frame e _ := Notes.expr_recordAll ..
  scope_frame x _ hx := by
    show (p.notes.recordAll t ds).scope x = _
    rw [Notes.scope_recordAll, if_neg fun htx : t = x => hx (htx ▸ ht)]
  diagnostics _ := (List.append_nil _).symm

/-- On the way out of a statement its scope is found as it then is. -/
theorem leave (h : Effect s R W p q o) {t : StmtId} {scope : Scope}
    (hscope : q.notes.scope t = scope) (ht : s.arena.Covers R (.stmt t)) :
    Effect s R W p q (o ++ { scopes := [(t, scope)] }) where
  findings f hf := h.findings f (by simpa using hf)
  finding_mem f hf := h.finding_mem f (by simpa using hf)
  scopes x hx := by
    rcases List.mem_append.1 hx with hx | hx
    · exact h.scopes x hx
    · obtain rfl := List.mem_singleton.1 hx
      exact hscope
  scope_mem x hx := by
    rcases List.mem_append.1 hx with hx | hx
    · exact h.scope_mem x hx
    · obtain rfl := List.mem_singleton.1 hx
      exact ht
  expr_frame := h.expr_frame
  scope_frame := h.scope_frame
  diagnostics hs := by
    rw [h.diagnostics hs, Outcome.diagnostics_append, List.append_nil]

/-- Names declared below the region belong to what is done there. -/
theorem of_declare {t : StmtId} {ds : List Definition} (ht : s.arena.Covers R (.stmt t))
    (h : Effect s R W (p.declare t ds) q o) : Effect s R W p q o where
  findings := h.findings
  finding_mem := h.finding_mem
  scopes := h.scopes
  scope_mem := h.scope_mem
  expr_frame e he := (h.expr_frame e he).trans (Notes.expr_recordAll ..)
  scope_frame x hx hW := by
    rw [h.scope_frame x hx hW]
    show (p.notes.recordAll t ds).scope x = _
    rw [Notes.scope_recordAll, if_neg fun htx : t = x => hx (htx ▸ ht)]
  diagnostics := h.diagnostics

/-- Reporting an issue about a statement. -/
theorem report (p : Progress) (t : StmtId) (issue : Option Issue) :
    Effect s [] W p (p.report (.stmt t) issue)
      { diagnostics := issue.toList.map (⟨·, .stmt t⟩) } where
  findings := by simp
  finding_mem := by simp
  scopes := by simp
  scope_mem := by simp
  expr_frame _ _ := rfl
  scope_frame _ _ _ := rfl
  diagnostics _ := by cases issue <;> rfl

end Effect

/-! ## What skipping relies on -/

/-- Below every expression under `root` that keeps its type, the notes are those of `target`. -/
def Prepared (s : Setting) (target : ExprId → ExprNote) (p : Progress) (root : NodeId) : Prop :=
  ∀ e, s.arena.Below root (.expr e) → (s.keptType p.notes e).isSome →
    ∀ x, s.arena.Below (.expr e) (.expr x) → p.notes.expr x = target x

namespace Prepared

variable {target : ExprId → ExprNote} {root n : NodeId}

theorem of_not_skips (h : s.skipsResolved = false) (p : Progress) (root : NodeId) :
    Prepared s target p root := by
  intro e _ hkept
  simp [Setting.keptType, h] at hkept

theorem below (h : Prepared s target p root) (hn : s.arena.Below root n) :
    Prepared s target p n :=
  fun e he => h e (Relation.ReflTransGen.trans hn he)

theorem congr (h : Prepared s target p root)
    (heq : ∀ e, s.arena.Below root (.expr e) → q.notes.expr e = p.notes.expr e) :
    Prepared s target q root := by
  intro e he hkept x hx
  have hk : s.keptType q.notes e = s.keptType p.notes e := by
    rw [Setting.keptType, Setting.keptType, Notes.type, Notes.type, heq e he]
  rw [heq x (Relation.ReflTransGen.trans he hx)]
  exact h e he (hk ▸ hkept) x hx

end Prepared
end ExprTyping
