import ExprTyping.Proofs.Arena.Climb
import ExprTyping.Proofs.Arena.Reading
import ExprTyping.Proofs.Lexical.Verdicts
import ExprTyping.Proofs.Visit.Effect

/-!
# The verdict of a visit

When a visit judges an expression, the scopes around it are those of the environment and the notes
below it are those that the verdicts on the operands leave. Then its verdict is that of
`Lexicon.verdict` (`Setting.judge_eq`).

The one note that may differ is the one on a callee: in a visit that skips typed expressions it
may already be the note that the call settles. Settling it once more makes no difference
(`Rule.memberCall_settled`).
-/

namespace ExprTyping

/-! ## Settled callees -/

namespace Rule

variable (catalog : Catalog) (callee : ExprNote) (labels : List String)

theorem initCall_settled (subject : Ty) :
    initCall catalog subject ((initCall catalog subject callee labels).callee.getD callee) labels =
      initCall catalog subject callee labels := by
  cases h : constructor? catalog subject labels <;> simp [initCall, h, Verdict.reported,
    Verdict.failed, Verdict.typed]

theorem methodCall_settled (receiver : Ty) (name : String) :
    methodCall catalog receiver name
        ((methodCall catalog receiver name callee labels).callee.getD callee) labels =
      methodCall catalog receiver name callee labels := by
  unfold methodCall
  cases hp : returnedByProperty? callee.member with
  | some result => simp [Verdict.typed, hp]
  | none =>
    cases hk : catalog.typeOf? receiver with
    | none => simp [Verdict.reported, Verdict.failed, Verdict.typed, hp]
    | some known =>
      cases hm : catalog.method? name labels receiver.isMetatype known with
      | none => simp [Verdict.reported, Verdict.failed, Verdict.typed, hp, hm]
      | some m => simp [returnedByProperty?, hm]

/-- A call that meets the note it settles settles the same note. -/
theorem memberCall_settled (receiver : Option Ty) (name : String) :
    memberCall catalog receiver name
        ((memberCall catalog receiver name callee labels).callee.getD callee) labels =
      memberCall catalog receiver name callee labels := by
  cases receiver with
  | none => rfl
  | some t =>
    cases t with
    | errorType => rfl
    | metatype subject =>
      simp only [memberCall]
      split_ifs
      · exact initCall_settled catalog callee labels subject
      · exact methodCall_settled catalog callee labels _ name
    | _ => exact methodCall_settled catalog callee labels _ name

end Rule

theorem eq_of_unsettled {note own : ExprNote} {settled : Option ExprNote}
    (h : note = own ∨ note = settled.getD own) (hnone : settled = none) : note = own := by
  rw [hnone] at h
  exact or_self_iff.1 h

/-! ## Frames -/

namespace Arena

variable (a : Arena) (notes : Notes)

/-- The scopes around a node, innermost first. -/
def framesAbove (n : NodeId) : Env := (a.ownersAbove n).map notes.scope

/-- The scopes at a node, its own among them if it has one, innermost first. -/
def frames (n : NodeId) : Env := (a.owners n).map notes.scope

variable {a notes}

theorem WellFormed.framesAbove_child (wf : a.WellFormed) {p c : NodeId} (h : a.Child p c) :
    a.framesAbove notes c = a.frames notes p := by
  rw [framesAbove, wf.ownersAbove_of_parent ((wf.child_iff_parent p c).1 h), frames]

/-- A name is looked up in the scopes around the expression. -/
theorem WellFormed.definitionNamed?_eq (wf : a.WellFormed) {e : ExprId}
    (he : a.contains (.expr e)) (name : String) :
    Tree.definitionNamed? ⟨a, notes⟩ (.expr e) name =
      .ok ((a.framesAbove notes (.expr e)).find? name) := by
  rw [Tree.definitionNamed?, wf.firstUpward_owners (fun s => (notes.scope s).find? name) he,
    owners_expr, framesAbove, Env.find?, List.findSome?_map]
  rfl

end Arena

namespace Term

theorem noteOn_of_ne {J x : Term Verdict} (h : J.shape.callee?.map (·.id) ≠ some x.id) :
    J.noteOn x = x.label.note := if_neg h

theorem noteOn_callee {J x : Term Verdict} (h : J.shape.callee? = some x) :
    J.noteOn x = J.label.callee.getD x.label.note := if_pos (by rw [h]; rfl)

end Term

/-! ## Verdicts -/

namespace Setting

/-- What gives names a meaning besides the scopes. -/
def lexicon (s : Setting) : Lexicon := ⟨s.catalog, s.intrinsics⟩

variable {s : Setting} {notes : Notes} {env : Env} {T : Term Mark}

/-- The meaning of a name at an expression is that in the scopes around the expression. -/
theorem binding?_eq (wf : s.arena.WellFormed) {e : ExprId} (he : s.arena.contains (.expr e))
    (hframes : s.arena.framesAbove notes (.expr e) = env) (name : String) :
    s.binding? notes e name = .ok (s.lexicon.meaning? env name) := by
  unfold binding? Lexicon.meaning? lexicon
  rw [wf.definitionNamed?_eq he, hframes]
  cases s.intrinsics.definition? name with
  | some d => rfl
  | none =>
    cases env.find? name with
    | some d => rfl
    | none => cases s.intrinsics.implicitMember? name <;> rfl

theorem judgeName_eq (wf : s.arena.WellFormed) {e : ExprId} (he : s.arena.contains (.expr e))
    (hframes : s.arena.framesAbove notes (.expr e) = env) (name : String) :
    s.judgeName notes e name = .ok (s.lexicon.judgeName env name) := by
  rw [judgeName, binding?_eq wf he hframes, Lexicon.judgeName]
  cases s.lexicon.meaning? env name <;> rfl

theorem judgeMember_eq (hT : s.arena.HoldsTerm T) (receiver : Operand) (name : String) :
    s.judgeMember T.id receiver name =
      .ok (s.lexicon.judgeMember T.label.isCallee receiver name) := by
  unfold judgeMember Lexicon.judgeMember
  rw [hT.isCallee_eq]
  split_ifs
  · rfl
  · rfl
  · cases receiver.type <;> rfl

theorem closeChain_eq (hT : s.arena.HoldsTerm T) (v : Verdict) :
    s.closeChain T.id v = .ok (T.label.close v) := by
  unfold closeChain Mark.close
  rw [hT.closesChain_eq]
  cases v.type with
  | none => rfl
  | some type =>
    by_cases h : (type.isError || type.isOptional) = true
    · simp only [h, if_true]
      rfl
    · simp only [h]
      cases T.label.closesChain <;> rfl

/-- The verdict on anything but a call comes from the types of the operands. -/
theorem judge_operands (wf : s.arena.WellFormed) (hT : s.arena.HoldsTerm T)
    (hframes : s.arena.framesAbove notes (.expr T.id) = env) (hcall : T.shape.callee? = none) :
    s.judge notes T.id (T.shape.map fun x => (s.lexicon.judge env x).operand) =
      .ok (s.lexicon.judge env T).label := by
  obtain ⟨parent, hnode⟩ := hT.exists_node
  rw [Lexicon.judge_label]
  cases hk : T.shape with
  | identifier name => exact judgeName_eq wf (Arena.contains_of_expr hnode) hframes name
  | constant | prefixed | unary | binary | assignment | cast | ternary | parens => rfl
  | arrayLiteral items =>
    simp only [Expr.map, judge, Lexicon.verdict, List.map_map]
    rfl
  | dictionaryLiteral pairs =>
    simp only [Expr.map, judge, Lexicon.verdict, List.map_map, List.flatMap_map]
    rfl
  | member receiver name =>
    show (do s.closeChain T.id (← s.judgeMember T.id _ name)) = _
    rw [judgeMember_eq hT]
    exact closeChain_eq hT _
  | subscript | chain => exact closeChain_eq hT _
  | call callee arguments => rw [hk] at hcall; cases hcall

/-- The verdict on a call also looks at the note on the callee, which may already be settled. -/
theorem judgeCall_eq {callee : Term Mark} (hcallee : s.arena.HoldsTerm callee)
    (arguments : List (Argument (Term Mark)))
    (hnote : notes.expr callee.id = (s.lexicon.judge env callee).label.note ∨
      notes.expr callee.id = (s.lexicon.judgeCall (s.lexicon.judge env callee)
        (arguments.map fun x => ⟨x.label, s.lexicon.judge env x.value⟩)).callee.getD
          (s.lexicon.judge env callee).label.note)
    (hbelow : ∀ y ∈ callee.shape.slots,
      notes.expr y.id = (s.lexicon.judge env callee).noteOn (s.lexicon.judge env y)) :
    s.judgeCall notes ⟨callee.id, (notes.expr callee.id).type⟩
        (arguments.map fun x => ⟨x.label, (s.lexicon.judge env x.value).operand⟩) =
      .ok (s.lexicon.judgeCall (s.lexicon.judge env callee)
        (arguments.map fun x => ⟨x.label, s.lexicon.judge env x.value⟩)) := by
  obtain ⟨parent, hnode⟩ := hcallee.exists_node
  have hlabels : ∀ {β : Type} (f : Term Mark → β),
      argumentLabels (arguments.map fun x => ⟨x.label, f x.value⟩) = argumentLabels arguments := by
    intro β f
    simp [argumentLabels, Function.comp_def]
  by_cases hfail : arguments.any fun x => (s.lexicon.judge env x.value).operand.isFailed
  · simp only [judgeCall, Lexicon.judgeCall, List.any_map, Function.comp_def, hfail, if_true]
    rfl
  · simp only [judgeCall, Lexicon.judgeCall, List.any_map, Function.comp_def, hfail, hnode,
      hlabels, Lexicon.judge_shape] at hnote ⊢
    cases hk : callee.shape with
    | member receiver name =>
      have hmem : receiver ∈ callee.shape.slots := by
        rw [hk]
        exact List.mem_singleton.2 rfl
      obtain ⟨_, hr⟩ := (hcallee.operand hmem).exists_node
      have htype : notes.type receiver.id = (s.lexicon.judge env receiver).label.type := by
        rw [Notes.type, hbelow receiver hmem, Term.noteOn, Lexicon.judge_shape, hk]
        rfl
      rw [hk] at hnote
      show (do
        let _ ← s.arena.expr receiver.id
        pure (Rule.memberCall s.catalog (notes.type receiver.id) name _ _)) = _
      rw [hr, htype, hlabels fun x => (s.lexicon.judge env x).operand]
      rcases hnote with h | h
      · rw [h]
        rfl
      · rw [h]
        exact congrArg Except.ok (Rule.memberCall_settled s.catalog _ (argumentLabels arguments)
          (s.lexicon.judge env receiver).label.type name)
    | identifier name =>
      rw [hk] at hnote
      have htype := eq_of_unsettled hnote (Rule.callee_nameCall ..)
      show Except.ok (Rule.nameCall s.catalog (notes.expr callee.id).type _) = _
      rw [hlabels fun x => (s.lexicon.judge env x).operand, htype]
      rfl
    | _ =>
      rw [hk] at hnote
      have htype := eq_of_unsettled hnote (callee_unlessFailed rfl)
      show Except.ok (unlessFailed [⟨callee.id, (notes.expr callee.id).type⟩] _) = _
      rw [htype, ← Lexicon.judge_id s.lexicon env callee]
      rfl

/-- The verdict of a visit is that of the environment, if the scopes around the expression are
those of the environment and the notes below it are those that typing the operands leaves. -/
theorem judge_eq (wf : s.arena.WellFormed) (hT : s.arena.HoldsTerm T)
    (hframes : s.arena.framesAbove notes (.expr T.id) = env)
    (hnotes : ∀ x ∈ T.shape.slots, notes.expr x.id = (s.lexicon.judge env x).label.note ∨
      notes.expr x.id = (s.lexicon.judge env T).noteOn (s.lexicon.judge env x))
    (hbelow : ∀ x ∈ T.shape.slots, ∀ y ∈ x.shape.slots,
      notes.expr y.id = (s.lexicon.judge env x).noteOn (s.lexicon.judge env y)) :
    s.judge notes T.id (T.shape.map fun x => ⟨x.id, (notes.expr x.id).type⟩) =
      .ok (s.lexicon.judge env T).label := by
  have operand_eq : ∀ x ∈ T.shape.slots,
      (s.lexicon.judge env T).noteOn (s.lexicon.judge env x) =
          (s.lexicon.judge env x).label.note →
        (⟨x.id, (notes.expr x.id).type⟩ : Operand) = (s.lexicon.judge env x).operand := by
    intro x hx hown
    have hnote := hnotes x hx
    rw [hown, or_self] at hnote
    rw [hnote, Term.operand, Lexicon.judge_id]
    rfl
  cases hk : T.shape with
  | call callee arguments =>
    have hcallee : callee ∈ T.shape.slots := by
      rw [hk]
      exact List.mem_cons_self
    -- The arguments are not the callee, since no expression stands in two slots.
    have harguments : arguments.map (fun x => (⟨x.label, x.value.id,
        (notes.expr x.value.id).type⟩ : Argument Operand)) =
        arguments.map fun x => ⟨x.label, (s.lexicon.judge env x.value).operand⟩ := by
      apply List.map_congr_left
      intro x hx
      have hmem : x.value ∈ T.shape.slots := by
        rw [hk]
        exact List.mem_cons_of_mem _ (List.mem_map.2 ⟨x, hx, rfl⟩)
      rw [operand_eq x.value hmem (Term.noteOn_of_ne ?_)]
      rw [Lexicon.judge_shape, hk, Lexicon.judge_id]
      intro h
      have hid : (s.lexicon.judge env callee).id = x.value.id := Option.some.inj h
      have hnodup := wf.nodup_children _ _ hT.children_eq
      rw [hk, Expr.slots, List.map_cons, List.nodup_cons, List.map_map] at hnodup
      rw [Lexicon.judge_id] at hid
      exact hnodup.1 (hid ▸ List.mem_map.2 ⟨x, hx, rfl⟩)
    have hlabel : (s.lexicon.judge env T).label =
        T.label.close (s.lexicon.judgeCall (s.lexicon.judge env callee)
          (arguments.map fun x => ⟨x.label, s.lexicon.judge env x.value⟩)) := by
      rw [Lexicon.judge_label, hk]
      rfl
    have hnote := hnotes callee hcallee
    rw [Term.noteOn_callee (by rw [Lexicon.judge_shape, hk]; rfl), hlabel, Mark.callee_close]
      at hnote
    show (do s.closeChain T.id (← s.judgeCall notes _ (arguments.map _))) = _
    rw [harguments, judgeCall_eq (hT.operand hcallee) arguments hnote (hbelow callee hcallee),
      hlabel]
    exact closeChain_eq hT _
  | _ =>
    have hcall : T.shape.callee? = none := by
      rw [hk]
      rfl
    rw [← hk, ← judge_operands wf hT hframes hcall]
    refine congrArg _ (Expr.map_congr fun x hx => operand_eq x hx (Term.noteOn_of_ne ?_))
    rw [Lexicon.judge_shape, hk]
    simp [Expr.map, Expr.callee?]

end Setting
end ExprTyping
