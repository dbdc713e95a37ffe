import ExprTyping.Proofs.Arena.Climb
import ExprTyping.Proofs.Arena.Reading
import ExprTyping.Proofs.Lexical.Legs
import ExprTyping.Proofs.Visit.Effect

/-!
# The footprint of a visit

A `Footprint` says where a part of a visit may leave something: on the nodes of a region and,
outside it, in the scope of one statement. `Footprint.Changes ds p q` says that from `p` to `q`
nothing changed elsewhere, that the scope outside the region got the definitions `ds` one after
another, and that diagnostics were only added.

The footprint of a node has the nodes below it as its region, and the innermost statement around
it in which names can be declared (`Arena.footprint`). What is left below a child is left below its
parent, if a child that keeps its names to itself lets none of them out
(`Footprint.Changes.of_child`).

`Arena.declaredAround` lists the variables that are declared below a statement and belong to the
scope around it; `WellFormed.mem_declaredAround_iff` says which these are.
-/

namespace ExprTyping

/-! ## Names declared around a statement -/

namespace Arena

variable {a : Arena}

/-- The variables that are declared below a statement, but in the scope around it. -/
def declaredAround (a : Arena) (s : StmtId) : List Definition :=
  (a.program s).declares a.opens

/-- The statement `v` is reached from `s`, and names can be declared in neither of them nor on the
way. -/
def OpenWay (a : Arena) (s v : StmtId) : Prop :=
  a.owns s = false ∧
    Relation.ReflTransGen (fun p c => a.Child (.stmt p) (.stmt c) ∧ a.owns c = false) s v

/-- The statement itself declares this variable. -/
def DeclaresIn (a : Arena) (v : StmtId) (d : Definition) : Prop :=
  ∃ node declarations, a.stmt v = .ok node ∧ node.kind = .variables declarations ∧
    ∃ x ∈ declarations, d = ⟨x.name, x.type⟩

theorem declaresIn_iff {v : StmtId} {node : StmtNode} (hv : a.stmt v = .ok node)
    {d : Definition} : a.DeclaresIn v d ↔ d ∈ node.kind.declared := by
  constructor
  · rintro ⟨node', declarations, hv', hk, x, hx, rfl⟩
    obtain rfl := Except.ok.inj (hv.symm.trans hv')
    rw [hk]
    exact List.mem_map.2 ⟨x, hx, rfl⟩
  · intro hd
    cases hk : node.kind with
    | «variables» declarations =>
      rw [hk] at hd
      obtain ⟨x, hx, rfl⟩ := List.mem_map.1 hd
      exact ⟨node, declarations, hv, hk, x, hx, rfl⟩
    | _ =>
      rw [hk] at hd
      cases hd

theorem declaredAround_of_owner? {s : StmtId} (h : a.owner? (.stmt s) ≠ none) :
    a.declaredAround s = [] := by
  have howns : a.owns s = true := by
    by_contra hn
    exact h (by rw [owner?, if_neg hn])
  exact Program.declares_of_opens _ (by simpa [opens] using howns)

namespace WellFormed

variable (wf : a.WellFormed) {s : StmtId} {node : StmtNode}
include wf

theorem declaredAround_eq (hs : a.stmt s = .ok node) :
    a.declaredAround s =
      if a.owns s then []
      else node.kind.declared ++ node.kind.stmtSlots.flatMap a.declaredAround := by
  rw [declaredAround, Program.declares_eq, opens, program_id, wf.program_eq hs]
  simp only [Stmt.declared_map, Stmt.stmtSlots_map, List.flatMap_map]
  rfl

theorem mem_declaredAround (hs : a.stmt s = .ok node) {d : Definition} :
    d ∈ a.declaredAround s ↔ a.owns s = false ∧
      (a.DeclaresIn s d ∨ ∃ u, a.Child (.stmt s) (.stmt u) ∧ d ∈ a.declaredAround u) := by
  rw [wf.declaredAround_eq hs, declaresIn_iff hs]
  cases a.owns s with
  | true => simp
  | false => simp [child_stmt_iff hs]

/-- What is declared around a statement is declared by the statements that an open way leads to. -/
theorem mem_declaredAround_iff (hs : a.contains (.stmt s)) {d : Definition} :
    d ∈ a.declaredAround s ↔ ∃ v, a.OpenWay s v ∧ a.DeclaresIn v d := by
  constructor
  · obtain ⟨rank, hle, hrank⟩ := wf.exists_stmtRank
    intro hd
    induction h : rank s using Nat.strong_induction_on generalizing s with
    | _ r ih =>
      obtain ⟨node, hnode⟩ := exists_stmt hs
      obtain ⟨closed, own | ⟨u, hu, hdu⟩⟩ := (wf.mem_declaredAround hnode).1 hd
      · exact ⟨s, ⟨closed, .refl⟩, own⟩
      · obtain ⟨v, ⟨closedU, way⟩, hv⟩ :=
          ih (rank u) (h ▸ hrank s u hu) (wf.contains_child _ _ hu) hdu rfl
        exact ⟨v, ⟨closed, .head ⟨hu, closedU⟩ way⟩, hv⟩
  · rintro ⟨v, ⟨closed, way⟩, hv⟩
    induction way using Relation.ReflTransGen.head_induction_on with
    | refl =>
      obtain ⟨node, hnode⟩ := exists_stmt hs
      exact (wf.mem_declaredAround hnode).2 ⟨closed, .inl hv⟩
    | @head p c step _ ih =>
      obtain ⟨node, hnode⟩ := exists_stmt hs
      refine (wf.mem_declaredAround hnode).2 ⟨closed, .inr ⟨c, step.1, ?_⟩⟩
      exact ih (wf.contains_child _ _ step.1) step.2

end WellFormed
end Arena

/-! ## Footprints -/

/-- Where a part of a visit may leave something: on the nodes of a region, and names in one
statement besides. -/
structure Footprint where
  region : NodeId → Prop
  owner : Option StmtId

/-- The footprint of visiting a node. -/
def Arena.footprint (a : Arena) (n : NodeId) : Footprint := ⟨a.Below n, (a.owners n).head?⟩

namespace Footprint

variable {F : Footprint} {ds ds' : List Definition} {p q r : Progress}

/-- From `p` to `q`, the notes changed only in the region; besides, the definitions `ds` were
declared in the owner, if it is outside. Diagnostics were only added. -/
structure Changes (F : Footprint) (ds : List Definition) (p q : Progress) : Prop where
  expr_frame : ∀ e, ¬ F.region (.expr e) → q.notes.expr e = p.notes.expr e
  scope_frame : ∀ t, ¬ F.region (.stmt t) → q.notes.scope t =
    if F.owner = some t then ds.foldl Scope.record (p.notes.scope t) else p.notes.scope t
  diagnostics : p.diagnostics <+: q.diagnostics

namespace Changes

theorem refl (F : Footprint) (p : Progress) : F.Changes [] p p where
  expr_frame _ _ := rfl
  scope_frame _ _ := by simp
  diagnostics := List.prefix_rfl

theorem trans (h : F.Changes ds p q) (h' : F.Changes ds' q r) : F.Changes (ds ++ ds') p r where
  expr_frame e he := by rw [h'.expr_frame e he, h.expr_frame e he]
  scope_frame t ht := by
    rw [h'.scope_frame t ht, h.scope_frame t ht, List.foldl_append]
    split_ifs <;> rfl
  diagnostics := h.diagnostics.trans h'.diagnostics

/-- If the owner is in the region, nothing is declared outside. -/
theorem of_owner_mem (h : F.Changes ds p q) (inside : ∀ t, F.owner = some t → F.region (.stmt t))
    (ds' : List Definition) : F.Changes ds' p q where
  expr_frame := h.expr_frame
  scope_frame t ht := by
    have other : F.owner ≠ some t := fun ho => ht (inside t ho)
    rw [h.scope_frame t ht, if_neg other, if_neg other]
  diagnostics := h.diagnostics

/-- What is left below a child is left below its parent. A child in which names can be declared lets
no name out. -/
theorem of_child {a : Arena} (wf : a.WellFormed) {n c : NodeId} (hc : a.Child n c)
    (keeps : a.owner? c ≠ none → ds = []) (h : (a.footprint c).Changes ds p q) :
    (a.footprint n).Changes ds p q where
  expr_frame e he := h.expr_frame e fun hce => he (.of_child hc hce)
  scope_frame t ht := by
    have hframe := h.scope_frame t fun hct => ht (.of_child hc hct)
    cases howner : a.owner? c with
    | some u =>
      obtain rfl := keeps (by simp [howner])
      simpa using hframe
    | none =>
      have same : a.owners c = a.owners n := by
        rw [Arena.owners, howner, wf.ownersAbove_of_parent ((wf.child_iff_parent n c).1 hc)]
        rfl
      have same : (a.footprint c).owner = (a.footprint n).owner := congrArg List.head? same
      rwa [same] at hframe
  diagnostics := h.diagnostics

/-! ## Steps -/

theorem report (p : Progress) (n : NodeId) (issue : Option Issue) :
    F.Changes [] p (p.report n issue) where
  expr_frame _ _ := rfl
  scope_frame _ _ := by simp [Progress.report]
  diagnostics := List.prefix_append ..

theorem declare_inside {t : StmtId} (ht : F.region (.stmt t)) (p : Progress)
    (ds : List Definition) : F.Changes [] p (p.declare t ds) where
  expr_frame e _ := Notes.expr_recordAll ..
  scope_frame u hu := by
    have other : t ≠ u := fun h => hu (h ▸ ht)
    simp [Progress.declare, Notes.scope_recordAll, other]
  diagnostics := List.prefix_rfl

theorem declare_owner {t : StmtId} (ht : F.owner = some t) (p : Progress)
    (ds : List Definition) : F.Changes ds p (p.declare t ds) where
  expr_frame e _ := Notes.expr_recordAll ..
  scope_frame u _ := by
    rw [Progress.declare, Notes.scope_recordAll, ht]
    by_cases h : t = u
    · simp [h]
    · simp [h]
  diagnostics := List.prefix_rfl

theorem setExpr {e : ExprId} (he : F.region (.expr e)) (p : Progress) (note : ExprNote) :
    F.Changes [] p { p with notes := p.notes.setExpr e note } where
  expr_frame x hx := by
    have other : e ≠ x := fun h => hx (h ▸ he)
    simp [other]
  scope_frame _ _ := by simp
  diagnostics := List.prefix_rfl

theorem settleCallee {kind : Expr ExprId} (h : ∀ x, kind.callee? = some x → F.region (.expr x))
    (p : Progress) (note : Option ExprNote) : F.Changes [] p (p.settleCallee kind note) := by
  unfold Progress.settleCallee
  cases hk : kind.callee? with
  | none => exact .refl F p
  | some x =>
    cases note with
    | none => exact .refl F p
    | some note => exact .setExpr (h x hk) p note

/-- The verdict on an expression is noted on it and, if it is a call, on its callee. -/
theorem conclude {e : ExprId} {kind : Expr ExprId} (he : F.region (.expr e))
    (hcallee : ∀ x, kind.callee? = some x → F.region (.expr x)) (p : Progress) (v : Verdict) :
    F.Changes [] p (p.conclude e kind v) :=
  ((settleCallee hcallee p v.callee).trans (.setExpr he _ v.note)).trans (.report _ _ v.issue)

end Changes
end Footprint
end ExprTyping
