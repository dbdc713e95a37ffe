import ExprTyping.Proofs.Edit.Sparing

/-!
# Edits that fail, and edits that share

`Tree.replaceExpr` checks all it needs before it changes anything (`Tree.Refuses`), so a replacement
that fails leaves the tree as it is. `Tree.wrapExpr` takes the parent from the expression, calls the
builder and only then looks at what the builder gives. If that is not a node of the tree, the
wrapping fails, and the expression has lost its parent but still stands in its slot
(`Tree.failed_edits_keep`).

Apart from their checks the two edits are the same: a builder that makes nothing
(`Tree.giving`) rewires the same slot in the same way (`Tree.rewire_free`). But only the replacement
asks whether the new expression has a place already. So the wrapping also succeeds for one that has,
which then stands in two slots (`Tree.wrapExpr_giving_agrees`).
-/

namespace ExprTyping

open Relation

namespace Arena

variable {a b : Arena} {p : NodeId} {e old new : ExprId}

/-! ## The slot that an edit rewires -/

/-- Kinds and parents of expressions are overwritten independently of each other. -/
theorem setExprParent_setExprKind (a : Arena) (e x : ExprId) (parent : Option NodeId)
    (kind : Expr ExprId) : (a.setExprParent e parent).setExprKind x kind =
      (a.setExprKind x kind).setExprParent e parent := by
  rw [setExprKind, setExprKind, setExprParent, setExprParent]
  congr 1
  refine Array.ext (by simp) fun i hi _ => ?_
  simp only [Array.getElem_modify]
  split_ifs <;> rfl

theorem replaceSlot?_expr (a : Arena) (q : ExprId) : a.replaceSlot? (.expr q) old new =
    ((a.exprs[q.index]?.map (·.kind)).bind (·.replaceFirst? old new)).map (a.setExprKind q) := by
  rw [replaceSlot?]
  cases a.exprs[q.index]? with
  | none => rfl
  | some node => cases hkind : node.kind.replaceFirst? old new <;> simp [hkind]

/-- For the slot that an expression stands in, the parents of expressions play no role. -/
theorem replaceSlot?_setExprParent (a : Arena) (parent : Option NodeId) :
    (a.setExprParent e parent).replaceSlot? p old new =
      (a.replaceSlot? p old new).map (·.setExprParent e parent) := by
  cases p with
  | stmt s =>
    have hstmts : (a.setExprParent e parent).stmts = a.stmts := rfl
    rw [replaceSlot?, replaceSlot?, hstmts]
    cases a.stmts[s.index]? with
    | none => rfl
    | some node =>
      cases hkind : node.kind.replaceFirst? old new with
      | none => simp [hkind]
      | some kind =>
        simp only [hkind, Option.bind_eq_bind, Option.bind_some]
        rfl
  | expr q =>
    have hkind : (a.setExprParent e parent).exprs[q.index]?.map (·.kind) =
        a.exprs[q.index]?.map (·.kind) := by
      rw [setExprParent, Array.getElem?_modify]
      split_ifs
      · rw [Option.map_map]
        rfl
      · rfl
    rw [replaceSlot?_expr, replaceSlot?_expr, hkind, Option.map_map]
    congr 1
    funext kind
    exact a.setExprParent_setExprKind e q parent kind

/-- Rewiring takes the parent from `old`, so it makes no difference whether that has happened
before. -/
theorem rewire_setExprParent (h : a.Parent (.expr old) p) :
    (a.setExprParent old none).rewire p old new = a.rewire p old new := by
  rw [rewire, rewire, replaceSlot?_setExprParent]
  cases hslot : a.replaceSlot? p old new with
  | none => rfl
  | some replaced =>
    have hparent : replaced.parentOf? old = some p :=
      parentOf?_eq_some.2 ((parent_of_replaceSlot? hslot _).trans h)
    have hnone : ¬ (replaced.setExprParent old none).parentOf? old = some p := by
      intro hparent'
      rw [parentOf?_setExprParent_none] at hparent'
      cases hparent'
    simp only [Option.map_some, if_pos hparent, if_neg hnone]

/-! ## All slots after an edit -/

theorem mem_handles {n : NodeId} : n ∈ a.handles ↔ a.contains n := by
  cases n with
  | expr e => simp [handles, contains, ExprId.ext_iff]
  | stmt s => simp [handles, contains, StmtId.ext_iff]

theorem handles_congr (h : ∀ n, b.contains n = a.contains n) : b.handles = a.handles := by
  have hexprs : b.exprs.size = a.exprs.size :=
    eq_of_forall_lt_iff fun i => by simpa [contains] using h (.expr ⟨i⟩)
  have hstmts : b.stmts.size = a.stmts.size :=
    eq_of_forall_lt_iff fun i => by simpa [contains] using h (.stmt ⟨i⟩)
  rw [handles, handles, hexprs, hstmts]

/-- Of all slots, one changes. -/
theorem Rewires.exists_slots (hb : a.Rewires b p old new) : ∃ before after,
    a.slots = before ++ .expr old :: after ∧ b.slots = before ++ .expr new :: after := by
  obtain ⟨cs, hcs, hold, hcs'⟩ := hb.children_parent
  obtain ⟨left, right, hsplit, -, hreplaced⟩ := exists_replace_eq hold (.expr new)
  obtain ⟨l, r, hhandles⟩ := List.append_of_mem (mem_handles.2 (contains_of_children hcs))
  have hnodup := a.nodup_handles
  rw [hhandles] at hnodup
  have hmem := (List.nodup_cons.1 (List.nodup_middle.1 hnodup)).1
  have hframe : ∀ l' : List NodeId, p ∉ l' → l'.flatMap (fun n => (b.children n).toOption.getD []) =
      l'.flatMap fun n => (a.children n).toOption.getD [] := by
    intro l' hp
    refine List.flatMap_congr fun n hn => ?_
    rw [hb.children_frame n]
    rintro rfl
    exact hp hn
  refine ⟨l.flatMap (fun n => (a.children n).toOption.getD []) ++ left,
    right ++ r.flatMap fun n => (a.children n).toOption.getD [], ?_, ?_⟩
  · rw [slots, hhandles, List.flatMap_append, List.flatMap_cons, hcs, hsplit]
    simp [Except.toOption]
  · rw [slots, handles_congr hb.contains, hhandles, List.flatMap_append, List.flatMap_cons, hcs',
      hreplaced, hframe l fun hl => hmem (List.mem_append_left _ hl),
      hframe r fun hr => hmem (List.mem_append_right _ hr)]
    simp [Except.toOption]

/-- The expression that takes the place of another one gets one more slot. -/
theorem Rewires.count_slots (hb : a.Rewires b p old new) (hne : old ≠ new) :
    b.slots.count (.expr new) = a.slots.count (.expr new) + 1 := by
  obtain ⟨before, after, ha, hb'⟩ := hb.exists_slots
  have hne' : (.expr old : NodeId) ≠ .expr new := fun h => hne (NodeId.expr.inj h)
  rw [ha, hb', List.count_append, List.count_append, List.count_cons_self,
    List.count_cons_of_ne hne']
  omega

theorem Anchored.mem_slots {c : NodeId} (h : a.Anchored) (hc : a.Parent c p) : c ∈ a.slots := by
  refine List.mem_flatMap.2 ⟨p, mem_handles.2 (h.contains_parent hc), ?_⟩
  exact (a.child_iff_mem p c).1 (h.child_of_parent c p hc)

end Arena

namespace Tree

variable {t t' built : Tree} {old new : ExprId} {build : Builder} {error : EditError} {p : NodeId}

/-! ## Edits that fail -/

/-- What is wrong with a replacement: an expression that is not there, a new one that has a place,
or an old one that has none. -/
inductive Refuses (t : Tree) (old new : ExprId) : EditError → Prop
  | unknownOld (hold : t.contains (.expr old) = false) :
      Refuses t old new (.unknownNode (.expr old))
  | unknownNew (hold : t.contains (.expr old)) (hnew : t.contains (.expr new) = false) :
      Refuses t old new (.unknownNode (.expr new))
  | attached (hold : t.contains (.expr old)) (hne : old ≠ new) {p : NodeId}
      (hnew : t.arena.Parent (.expr new) p) : Refuses t old new (.alreadyAttached (.expr new))
  | detached (hold : t.arena.Detached (.expr old)) (hne : old ≠ new)
      (hnew : t.arena.Detached (.expr new)) : Refuses t old new (.detached (.expr old))

/-- A replacement fails by one of its checks only. If they pass, the parent holds the old expression
in a slot. -/
theorem refuses_of_replaceExpr (h : t.arena.Anchored)
    (hfails : t.replaceExpr old new = .error error) : t.Refuses old new error := by
  rw [replaceExpr] at hfails
  by_cases hold : t.contains (.expr old)
  swap
  · simp only [requireExpr, if_neg hold, bind, Except.bind] at hfails
    cases hfails
    exact .unknownOld (Bool.eq_false_iff.2 hold)
  by_cases hnew : t.contains (.expr new)
  swap
  · simp only [requireExpr, if_pos hold, if_neg hnew, bind, Except.bind] at hfails
    cases hfails
    exact .unknownNew hold (Bool.eq_false_iff.2 hnew)
  simp only [requireExpr, if_pos hold, if_pos hnew, bind, Except.bind] at hfails
  by_cases hne : old = new
  · rw [if_pos hne] at hfails
    cases hfails
  rw [if_neg hne] at hfails
  cases hq : t.arena.parentOf? new with
  | some q =>
    simp only [hq, Option.isSome_some, if_true] at hfails
    cases hfails
    exact .attached hold hne (Arena.parentOf?_eq_some.1 hq)
  | none =>
    simp only [hq, Option.isSome_none, Bool.false_eq_true, if_false] at hfails
    cases hp : t.arena.parentOf? old with
    | none =>
      rw [hp] at hfails
      cases hfails
      exact .detached (Arena.detached_of_parentOf?_eq_none hold hp) hne
        (Arena.detached_of_parentOf?_eq_none hnew hq)
    | some p =>
      rw [hp] at hfails
      obtain ⟨rewired, hrewire, -⟩ :=
        exists_rewire (h.child_of_parent _ p (Arena.parentOf?_eq_some.1 hp)) hnew
      cases hrewire.symm.trans hfails

/-- The first check that does not pass is the one that is reported. -/
theorem replaceExpr_of_refuses (h : t.Refuses old new error) :
    t.replaceExpr old new = .error error := by
  rw [replaceExpr]
  cases h with
  | unknownOld hold => simp [requireExpr, hold, bind, Except.bind]
  | unknownNew hold hnew => simp [requireExpr, hold, hnew, bind, Except.bind]
  | attached hold hne hparent =>
    have hnew : t.contains (.expr new) := Arena.contains_of_parent hparent
    simp only [requireExpr, if_pos hold, if_pos hnew, if_neg hne, Arena.parentOf?_eq_some.2 hparent,
      bind, Except.bind]
    rfl
  | detached hold hne hnew =>
    have hcontains : t.contains (.expr old) := Arena.Detached.contains hold
    have hcontains' : t.contains (.expr new) := Arena.Detached.contains hnew
    simp only [requireExpr, if_pos hcontains, if_pos hcontains', if_neg hne,
      Arena.Detached.parentOf?_eq_none hold, Arena.Detached.parentOf?_eq_none hnew, bind,
      Except.bind]
    rfl

/-- A wrapping that fails has not called the builder, or leaves the tree as the builder left it. -/
theorem wrapExpr_error (h : t.wrapExpr old build = .ok (t', .error error)) :
    t' = t ∧ (∀ p, ¬ t.arena.Parent (.expr old) p) ∨
    ∃ p new, t.arena.Parent (.expr old) p ∧ build (t.free old) old = .ok (t', new) ∧
      (t'.contains (.expr new) = false ∧ error = .unknownNode (.expr new) ∨
        t'.contains (.expr new) ∧ t'.rewire p old new = .error error) := by
  rw [wrapExpr] at h
  split at h
  swap
  · rename_i hold
    cases h
    exact .inl ⟨rfl, fun p hp => hold (Arena.contains_of_parent hp)⟩
  split at h
  · rename_i hnone
    cases h
    refine .inl ⟨rfl, fun p hp => ?_⟩
    rw [Arena.parentOf?_eq_some.2 hp] at hnone
    cases hnone
  rename_i p hp
  obtain ⟨⟨built, new⟩, hbuild, h⟩ := bind_eq_ok_iff.1 h
  refine .inr ⟨p, new, Arena.parentOf?_eq_some.1 hp, ?_⟩
  dsimp only at h
  split at h
  · rename_i missing hmissing
    cases h
    refine ⟨hbuild, .inl ?_⟩
    rw [requireExpr] at hmissing
    split_ifs at hmissing with hcontains
    cases hmissing
    exact ⟨Bool.eq_false_iff.2 hcontains, rfl⟩
  · rename_i hrequired
    split at h
    · rename_i hrewire
      cases h
      exact ⟨hbuild, .inr ⟨contains_of_requireExpr hrequired, hrewire⟩⟩
    · cases h

/-- If the builder has touched nothing else, the expression still stands in its slot, without its
parent. -/
theorem Spared.detaches (hspared : t.Spared old built) (h : t.arena.Anchored)
    (hp : t.arena.Parent (.expr old) p) :
    ¬ built.arena.Parent (.expr old) p ∧ (p ≠ .expr old → built.arena.Child p (.expr old)) := by
  have hcontains : t.contains p := h.contains_parent hp
  refine ⟨fun hp' => ?_, fun hne => ?_⟩
  · cases (hspared.fresh p hp').symm.trans hcontains
  · obtain ⟨cs, hcs, hold⟩ := h.child_of_parent _ p hp
    exact ⟨cs, (hspared.keeps p hcontains hne).children_eq.trans hcs, hold⟩

/-- A replacement that fails changes nothing. So does a wrapping of an expression that has no place,
or is not there. A wrapping that fails after a builder that touches nothing but the expression
changes nothing else, but the expression has lost its parent; unless it was its own parent, it still
stands in its slot, and what is wrong is the handle that the builder gives. -/
theorem failed_edits_keep (h : t.Assembled) :
    (∀ old new error, t.replaceExpr old new = .error error → t.Refuses old new error ∧
      t.Keeps ((t.replaceExpr old new).toOption.getD t)) ∧
    ∀ old build t' error, t.Spares old build → t.wrapExpr old build = .ok (t', .error error) →
      t.KeepsBut t' old ∧ (t.Keeps t' ↔ ∀ p, ¬ t.arena.Parent (.expr old) p) ∧
      ∀ p, t.arena.Parent (.expr old) p → ¬ t'.arena.Parent (.expr old) p ∧
        (p ≠ .expr old → t'.arena.Child p (.expr old) ∧
          ∃ new, build (t.free old) old = .ok (t', new) ∧ t'.contains (.expr new) = false ∧
            error = .unknownNode (.expr new)) := by
  have hanchored := h.anchored
  constructor
  · intro old new error hfails
    refine ⟨refuses_of_replaceExpr hanchored hfails, ?_⟩
    rw [hfails]
    exact keeps_refl t
  intro old build t' error hspares hwrap
  rcases wrapExpr_error hwrap with ⟨rfl, hplace⟩ | ⟨p, new, hp, hbuild, hreason⟩
  -- the builder has not been called
  · refine ⟨(keeps_refl t').but old, iff_of_true (keeps_refl t') hplace, ?_⟩
    intro p hp
    exact absurd hp (hplace p)
  -- the builder has been called, without the parent of the expression
  have hspared := hspares t' new hbuild
  obtain ⟨hlost, hslot⟩ := hspared.detaches hanchored hp
  refine ⟨hspared.keeps, iff_of_false ?_ ?_, ?_⟩
  · intro hkeeps
    have hkept := hkeeps _ (Arena.contains_of_parent hp)
    exact hlost (hkept.parent_eq.trans hp)
  · intro hplace
    exact hplace p hp
  · intro q hq
    obtain rfl := hq.unique hp
    refine ⟨hlost, fun hne => ⟨hslot hne, new, hbuild, ?_⟩⟩
    rcases hreason with hmissing | ⟨hnew, hcorrupt⟩
    · exact hmissing
    · obtain ⟨rewired, hrewire, -⟩ := exists_rewire (hslot hne) hnew
      cases hrewire.symm.trans hcorrupt

/-- The statement `x`. -/
theorem assembled_single :
    Assembled (singleStatement ⟨0⟩ #[⟨.identifier "x", some (.stmt ⟨0⟩)⟩]) := by
  have hx : Call .empty { arena := { exprs := #[⟨.identifier "x", none⟩] } } :=
    .expr (.identifier "x") rfl (by decide)
  exact (ReflTransGen.single hx).tail (.stmt (.expressions [⟨0⟩]) rfl (by decide) (by decide))

/-- In the statement `x`, wrapping the `x` into parentheses fails, because the builder makes them
but gives another handle. -/
theorem failed_edits_keep_parens : ∃ t t', Assembled t ∧
    t.wrapExpr ⟨0⟩ (Construction.builder fun x => .expr (.parens x) fun _ => .done ⟨7⟩) =
      .ok (t', .error (.unknownNode (.expr ⟨7⟩))) ∧
    t.KeepsBut t' ⟨0⟩ ∧ ¬ t'.arena.Parent (.expr ⟨0⟩) (.stmt ⟨0⟩) ∧
    t'.arena.Child (.stmt ⟨0⟩) (.expr ⟨0⟩) := by
  have hspares : (singleStatement ⟨0⟩ #[⟨.identifier "x", some (.stmt ⟨0⟩)⟩]).Spares ⟨0⟩
      (Construction.builder fun x => .expr (.parens x) fun _ => .done ⟨7⟩) :=
    Construction.spares_builder ⟨by decide, fun _ _ _ => trivial⟩
      ⟨fun x hx => .inl (List.mem_singleton.1 hx), fun _ => trivial⟩
  obtain ⟨hkeeps, -, hplace⟩ := (failed_edits_keep assembled_single).2 _ _ _ _ hspares rfl
  obtain ⟨hlost, hslot⟩ := hplace (.stmt ⟨0⟩) rfl
  exact ⟨_, _, assembled_single, rfl, hkeeps, hlost, (hslot NodeId.noConfusion).1⟩

/-- The builder that makes nothing and gives the same expression, whatever it is called for. -/
def giving (new : ExprId) : Builder := fun t _ => .ok (t, new)

theorem spares_giving (t : Tree) (old new : ExprId) : t.Spares old (giving new) := by
  intro built given hbuild
  cases hbuild
  exact .free t old

/-- In the statement `x`, wrapping the `x` fails for a builder that makes nothing and gives a handle
without a node. The statement still holds the `x`, which has no parent any more. -/
theorem failed_wrap_detaches : ∃ t t', Assembled t ∧ t.Spares ⟨0⟩ (giving ⟨7⟩) ∧
    t.wrapExpr ⟨0⟩ (giving ⟨7⟩) = .ok (t', .error (.unknownNode (.expr ⟨7⟩))) ∧ ¬ t.Keeps t' ∧
    t'.arena.Child (.stmt ⟨0⟩) (.expr ⟨0⟩) ∧ t'.arena.Detached (.expr ⟨0⟩) := by
  refine ⟨_, _, assembled_single, spares_giving _ _ _, rfl, fun hkeeps => ?_,
    ⟨_, rfl, List.mem_singleton.2 rfl⟩, rfl⟩
  cases (hkeeps (.expr ⟨0⟩) rfl).1

/-! ## The two edits side by side -/

/-- Rewiring takes the parent from the old expression, so a builder may be called without it. -/
theorem rewire_free (h : t.arena.Parent (.expr old) p) :
    (t.free old).rewire p old new = t.rewire p old new := by
  rw [rewire, rewire, free, Arena.rewire_setExprParent h]

/-- A replacement by another expression that has no place rewires the slot of the old one. -/
theorem replaceExpr_iff (hne : old ≠ new) : t.replaceExpr old new = .ok t' ↔
    t.arena.Detached (.expr new) ∧
      ∃ p, t.arena.Parent (.expr old) p ∧ t.rewire p old new = .ok t' := by
  constructor
  · intro h
    obtain ⟨p, hp, hnew, hrewire⟩ := replaceExpr_of_ne hne h
    exact ⟨hnew, p, hp, hrewire⟩
  · rintro ⟨hnew, p, hp, hrewire⟩
    have hold : t.contains (.expr old) := Arena.contains_of_parent hp
    have hcontains : t.contains (.expr new) := hnew.contains
    have hfree : t.arena.parentOf? new = none := Arena.Detached.parentOf?_eq_none hnew
    rw [replaceExpr]
    simp only [requireExpr, if_pos hold, if_pos hcontains, if_neg hne, hfree,
      Arena.parentOf?_eq_some.2 hp, bind, Except.bind]
    exact hrewire

/-- Where the old expression has a place, wrapping it with a given one asks whether that one is
there, and rewires the slot. -/
theorem wrapExpr_giving (hp : t.arena.Parent (.expr old) p) : t.wrapExpr old (giving new) =
    .ok (match t.requireExpr new >>= fun _ => t.rewire p old new with
      | .error error => (t.free old, .error error)
      | .ok rewired => (rewired, .ok new)) := by
  have hold : t.contains (.expr old) := Arena.contains_of_parent hp
  have hrequire : (t.free old).requireExpr new = t.requireExpr new := by
    have hcontains : (t.free old).contains (.expr new) = t.contains (.expr new) :=
      t.arena.contains_setExprParent old none _
    rw [requireExpr, requireExpr, hcontains]
  have hrewire : (t.free old).rewire p old new = t.rewire p old new := rewire_free hp
  rw [wrapExpr, if_pos hold, Arena.parentOf?_eq_some.2 hp]
  rw [free] at hrequire hrewire
  simp only [giving, bind, Except.bind, hrequire, hrewire]
  cases t.requireExpr new with
  | error error => rfl
  | ok u => cases t.rewire p old new <;> rfl

theorem wrapExpr_giving_iff : t.wrapExpr old (giving new) = .ok (t', .ok new) ↔
    t.contains (.expr new) ∧
      ∃ p, t.arena.Parent (.expr old) p ∧ t.rewire p old new = .ok t' := by
  constructor
  · intro h
    obtain ⟨p, -, hp, -⟩ := wrapExpr_ok h
    rw [wrapExpr_giving hp] at h
    cases hresult : t.requireExpr new >>= fun _ => t.rewire p old new with
    | error error => rw [hresult] at h; cases h
    | ok rewired =>
      rw [hresult] at h
      cases h
      obtain ⟨_, hrequired, hrewire⟩ := bind_eq_ok_iff.1 hresult
      exact ⟨contains_of_requireExpr hrequired, p, hp, hrewire⟩
  · rintro ⟨hnew, p, hp, hrewire⟩
    rw [wrapExpr_giving hp, requireExpr, if_pos hnew, hrewire]
    rfl

/-- A replacement by another expression succeeds exactly if that one has no place and a wrapping
that just gives it succeeds, and the two lead to the same tree. The wrapping asks only that the old
expression has a place and the new one is there. It gives the new one a slot more, so if that has a
place, which the replacement refuses, it stands in two slots. -/
theorem wrapExpr_giving_agrees (h : t.Assembled) (hne : old ≠ new) :
    (∀ t', t.replaceExpr old new = .ok t' ↔
      t.arena.Detached (.expr new) ∧ t.wrapExpr old (giving new) = .ok (t', .ok new)) ∧
    ((∃ t', t.wrapExpr old (giving new) = .ok (t', .ok new)) ↔
      t.contains (.expr new) ∧ ∃ p, t.arena.Parent (.expr old) p) ∧
    ∀ t', t.wrapExpr old (giving new) = .ok (t', .ok new) →
      t'.arena.slots.count (.expr new) = t.arena.slots.count (.expr new) + 1 ∧
      ∀ q, t.arena.Parent (.expr new) q →
        t.replaceExpr old new = .error (.alreadyAttached (.expr new)) ∧
        2 ≤ t'.arena.slots.count (.expr new) := by
  have hanchored := h.anchored
  have hrewires : t.contains (.expr new) → ∀ p, t.arena.Parent (.expr old) p →
      ∃ t', t.rewire p old new = .ok t' ∧ t.arena.Rewires t'.arena p old new := by
    intro hnew p hp
    exact exists_rewire (hanchored.child_of_parent _ p hp) hnew
  refine ⟨?_, ⟨?_, ?_⟩, ?_⟩
  · intro t'
    rw [replaceExpr_iff hne, wrapExpr_giving_iff]
    exact and_congr_right fun hnew => (and_iff_right hnew.contains).symm
  · rintro ⟨t', hwrap⟩
    obtain ⟨hnew, p, hp, -⟩ := wrapExpr_giving_iff.1 hwrap
    exact ⟨hnew, p, hp⟩
  · rintro ⟨hnew, p, hp⟩
    obtain ⟨t', hrewire, -⟩ := hrewires hnew p hp
    exact ⟨t', wrapExpr_giving_iff.2 ⟨hnew, p, hp, hrewire⟩⟩
  · intro t' hwrap
    obtain ⟨hnew, p, hp, hrewire⟩ := wrapExpr_giving_iff.1 hwrap
    obtain ⟨t'', hrewire', hslot⟩ := hrewires hnew p hp
    cases hrewire.symm.trans hrewire'
    have hcount := hslot.count_slots hne
    refine ⟨hcount, ?_⟩
    intro q hq
    have hold : t.contains (.expr old) := Arena.contains_of_parent hp
    have hmem := List.count_pos_iff.2 (hanchored.mem_slots hq)
    exact ⟨replaceExpr_of_refuses (.attached hold hne hq), by omega⟩

/-- In the statement `x`, the `x` can be replaced by a `y` without a place, or wrapped with it. -/
theorem wrapExpr_giving_agrees_spare : ∃ t t', Assembled t ∧
    t.wrapExpr ⟨0⟩ (giving ⟨1⟩) = .ok (t', .ok ⟨1⟩) ∧ t.replaceExpr ⟨0⟩ ⟨1⟩ = .ok t' ∧
    t'.arena.slots.count (.expr ⟨1⟩) = 1 := by
  have hy : Call (singleStatement ⟨0⟩ #[⟨.identifier "x", some (.stmt ⟨0⟩)⟩])
      (singleStatement ⟨0⟩
        #[⟨.identifier "x", some (.stmt ⟨0⟩)⟩, ⟨.identifier "y", none⟩]) :=
    .expr (.identifier "y") rfl (by decide)
  have hassembled := assembled_single.tail hy
  obtain ⟨hreplace, -, hwrap⟩ :=
    wrapExpr_giving_agrees hassembled (show (⟨0⟩ : ExprId) ≠ ⟨1⟩ by decide)
  obtain ⟨hcount, -⟩ := hwrap _ rfl
  exact ⟨_, _, hassembled, rfl, (hreplace _).2 ⟨rfl, rfl⟩, hcount⟩

/-- In the statement `a; b`, wrapping the `a` with the `b` puts the `b` into both places. A
replacement is refused. -/
theorem wrapExpr_giving_shares : ∃ t t', Assembled t ∧
    t.arena.slots = [.expr ⟨0⟩, .expr ⟨1⟩] ∧
    t.replaceExpr ⟨0⟩ ⟨1⟩ = .error (.alreadyAttached (.expr ⟨1⟩)) ∧
    t.wrapExpr ⟨0⟩ (giving ⟨1⟩) = .ok (t', .ok ⟨1⟩) ∧
    t'.arena.slots = [.expr ⟨1⟩, .expr ⟨1⟩] := by
  have ha : Call .empty { arena := { exprs := #[⟨.identifier "a", none⟩] } } :=
    .expr (.identifier "a") rfl (by decide)
  have hb : Call { arena := { exprs := #[⟨.identifier "a", none⟩] } } { arena := { exprs :=
      #[⟨.identifier "a", none⟩, ⟨.identifier "b", none⟩] } } :=
    .expr (.identifier "b") rfl (by decide)
  have hstmt : Call { arena := { exprs :=
      #[⟨.identifier "a", none⟩, ⟨.identifier "b", none⟩] } } { arena := {
      exprs := #[⟨.identifier "a", some (.stmt ⟨0⟩)⟩, ⟨.identifier "b", some (.stmt ⟨0⟩)⟩],
      stmts := #[⟨.expressions [⟨0⟩, ⟨1⟩], none, false⟩] } } :=
    .stmt (.expressions [⟨0⟩, ⟨1⟩]) rfl (by decide) (by decide)
  exact ⟨_, _, ((ReflTransGen.single ha).tail hb).tail hstmt, rfl, rfl, rfl, rfl⟩

end Tree
end ExprTyping
