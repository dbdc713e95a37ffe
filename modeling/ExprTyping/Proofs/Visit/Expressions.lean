import ExprTyping.Proofs.Lexical.Coverage
import ExprTyping.Proofs.Visit.Judgement

/-!
# Visiting expressions

A visit of an expression leaves the notes that typing its term in the environment finds
(`Setting.visitExpr_run`). This holds for a full visit as well as for one that skips typed
expressions, provided that the notes below a skipped expression are those that typing finds
(`Prepared`).
-/

namespace ExprTyping

namespace Progress

variable (p : Progress) (e x : ExprId) (kind : Expr ExprId) (v : Verdict)

theorem expr_settleCallee (note : Option ExprNote) :
    (p.settleCallee kind note).notes.expr x =
      if kind.callee? = some x then note.getD (p.notes.expr x) else p.notes.expr x := by
  unfold settleCallee
  cases kind.callee? with
  | none => rfl
  | some c =>
    cases note with
    | none => simp
    | some n => simp

theorem expr_conclude :
    (p.conclude e kind v).notes.expr x =
      if e = x then v.note
      else if kind.callee? = some x then v.callee.getD (p.notes.expr x)
      else p.notes.expr x := by
  show ((p.settleCallee kind v.callee).notes.setExpr e v.note).expr x = _
  rw [Notes.expr_setExpr, expr_settleCallee]

theorem scope_conclude (t : StmtId) :
    (p.conclude e kind v).notes.scope t = p.notes.scope t := by
  show (p.settleCallee kind v.callee).notes.scope t = _
  unfold settleCallee
  split <;> rfl

theorem diagnostics_conclude :
    (p.conclude e kind v).diagnostics =
      p.diagnostics ++ (v.issue.map (⟨·, .expr e⟩)).toList := by
  show (p.settleCallee kind v.callee).diagnostics ++ _ = _
  unfold settleCallee
  split <;> rfl

end Progress

namespace Setting

variable {s : Setting} {e : ExprId} {node : ExprNode} {depth : ℕ} {p q : Progress}

/-! ## One step -/

theorem visitExprWithin_kept (he : s.arena.expr e = .ok node) {type : Ty}
    (hkept : s.keptType p.notes e = some type) :
    (s.visitExprWithin (depth + 1) e).run p = .ok (some type, p) := by
  have hnode : (liftM (s.arena.expr e) : Visit ExprNode).run p = .ok (node, p) := by
    rw [he]
    rfl
  have hget : (get : Visit Progress).run p = .ok (p, p) := rfl
  rw [visitExprWithin, run_bind_of_run hnode, run_bind_of_run hget, hkept]
  rfl

theorem visitExprWithin_open (he : s.arena.expr e = .ok node)
    (hkept : s.keptType p.notes e = none) {operands : Expr Operand} {verdict : Verdict}
    (hoperands : (node.kind.mapM fun x => return ⟨x, ← s.visitExprWithin depth x⟩ :
      Visit (Expr Operand)).run p = .ok (operands, q))
    (hjudge : s.judge q.notes e operands = .ok verdict) :
    (s.visitExprWithin (depth + 1) e).run p =
      .ok (verdict.type, q.conclude e node.kind verdict) := by
  have hnode : (liftM (s.arena.expr e) : Visit ExprNode).run p = .ok (node, p) := by
    rw [he]
    rfl
  have hget : ∀ p : Progress, (get : Visit Progress).run p = .ok (p, p) := fun _ => rfl
  rw [visitExprWithin, run_bind_of_run hnode, run_bind_of_run (hget p), hkept]
  show ((node.kind.mapM _ : Visit _) >>= _).run p = _
  rw [run_bind_of_run hoperands, run_bind_of_run (hget q), hjudge]
  rfl

/-! ## Concluding -/

section

variable {L : Lexicon} {env : Env} {T x y : Term Mark} {v : Verdict}

/-- Concluding on an expression changes its note and the one on its callee. -/
theorem expr_conclude_outside (hT : s.arena.HoldsTerm T)
    (he : ¬ s.arena.Below (.expr T.id) (.expr e)) :
    (q.conclude T.id (T.shape.map (·.id)) v).notes.expr e = q.notes.expr e := by
  have hne : T.id ≠ e := by
    rintro rfl
    exact he (.refl _)
  have hcallee : (T.shape.map (·.id)).callee? ≠ some e := by
    intro hc
    rw [Expr.callee?_map] at hc
    obtain ⟨c, hslot, rfl⟩ := Option.map_eq_some_iff.1 hc
    exact he (.of_child (hT.child (Expr.mem_slots_of_callee? hslot)) (.refl _))
  rw [Progress.expr_conclude, if_neg hne, if_neg hcallee]

theorem expr_conclude_below (wf : s.arena.WellFormed) (hT : s.arena.HoldsTerm T)
    (hx : x ∈ T.shape.slots) (hy : y ∈ x.shape.slots)
    (he : s.arena.Below (.expr y.id) (.expr e)) :
    (q.conclude T.id (T.shape.map (·.id)) v).notes.expr e = q.notes.expr e := by
  have hxT := hT.child hx
  have hyx := (hT.operand hx).child hy
  have hne : T.id ≠ e := by
    rintro rfl
    exact wf.not_below_of_child hxT (.of_child hyx he)
  -- The callee stands beside the operand or is the operand, so it is not below the operand.
  have hcallee : (T.shape.map (·.id)).callee? ≠ some e := by
    intro hc
    rw [Expr.callee?_map] at hc
    obtain ⟨c, hslot, rfl⟩ := Option.map_eq_some_iff.1 hc
    have hcT := hT.child (Expr.mem_slots_of_callee? hslot)
    have hcx := wf.eq_of_below hcT hxT (.refl _) (.of_child hyx he)
    rw [hcx] at he
    exact wf.not_below_of_child hyx he
  rw [Progress.expr_conclude, if_neg hne, if_neg hcallee]

/-- Concluding on an expression completes the notes on its operands: a call settles its callee. -/
theorem expr_conclude_operand (wf : s.arena.WellFormed) (hT : s.arena.HoldsTerm T)
    (hx : x ∈ T.shape.slots)
    (hq : q.notes.expr x.id = (L.judge env x).label.note ∨
      q.notes.expr x.id = (L.judge env T).noteOn (L.judge env x)) :
    (q.conclude T.id (T.shape.map (·.id)) (L.judge env T).label).notes.expr x.id =
      (L.judge env T).noteOn (L.judge env x) := by
  have hne : T.id ≠ x.id := by
    intro heq
    exact wf.not_below_of_child (hT.child hx) (heq ▸ .refl _)
  have hcallee : (L.judge env T).shape.callee?.map (·.id) = (T.shape.map (·.id)).callee? := by
    simp [Function.comp_def]
  rw [Progress.expr_conclude, if_neg hne]
  rw [Term.noteOn, hcallee, Lexicon.judge_id] at hq ⊢
  split_ifs at hq ⊢ with hc
  · cases hsettled : (L.judge env T).label.callee with
    | some note => rfl
    | none => exact eq_of_unsettled hq hsettled
  · exact or_self_iff.1 hq

/-- Once the operands have been visited, concluding leaves what typing the term finds. -/
theorem effect_conclude (wf : s.arena.WellFormed) (hT : s.arena.HoldsTerm T)
    {m : Term Mark → ExprNote}
    (hm : ∀ x ∈ T.shape.slots, m x = (L.judge env x).label.note ∨
      m x = (L.judge env T).noteOn (L.judge env x))
    (h : Effect s (T.shape.slots.map fun x => .expr x.id) (fun _ => False) p q
      { findings := T.shape.slots.flatMap fun x => (L.judge env x).findings (m x)
        diagnostics := T.shape.slots.flatMap fun x => (L.judge env x).diagnostics }) :
    Effect s [.expr T.id] (fun _ => False) p
      (q.conclude T.id (T.shape.map (·.id)) (L.judge env T).label)
      { findings := (L.judge env T).findings (L.judge env T).label.note
        diagnostics := (L.judge env T).diagnostics } where
  findings f hf := by
    rcases Lexicon.mem_findings.1 hf with rfl | ⟨x, hx, hf⟩
    · rw [Progress.expr_conclude, if_pos rfl]
    have recorded : ∀ g ∈ (L.judge env x).findings (m x), q.notes.expr g.expr = g.note :=
      fun g hg => h.findings g (List.mem_flatMap.2 ⟨x, hx, hg⟩)
    rcases Lexicon.mem_findings.1 hf with rfl | ⟨y, hy, hf⟩
    · have hq : q.notes.expr x.id = m x := recorded _ Lexicon.own_mem_findings
      exact expr_conclude_operand wf hT hx (hq ▸ hm x hx)
    · have hbelow := Lexicon.below_of_mem_findings ((hT.operand hx).operand hy) hf
      rw [expr_conclude_below wf hT hx hy hbelow]
      exact recorded f (Lexicon.mem_findings_of_operand hy hf)
  finding_mem f hf := Arena.covers_singleton.2 (Lexicon.below_of_mem_findings hT hf)
  scopes := by simp
  scope_mem := by simp
  expr_frame e he := by
    rw [Arena.covers_singleton] at he
    rw [expr_conclude_outside hT he]
    exact h.expr_frame e fun hc => he (Arena.covers_of_children hT.children_eq hc)
  scope_frame t _ _ := by
    rw [Progress.scope_conclude]
    refine h.scope_frame t (fun hc => ?_) id
    obtain ⟨x, hx⟩ := (Arena.covers_of_children hT.children_eq hc).of_expr
    cases hx
  diagnostics hs := by
    rw [Progress.diagnostics_conclude, h.diagnostics hs, Term.diagnostics_eq,
      Lexicon.judge_shape, Lexicon.judge_id, Expr.slots_map, List.flatMap_map, List.append_assoc]

end

/-! ## Visiting a whole expression -/

/-- The note on a visited expression before its parent concludes: an expression that keeps its
type has its final note, any other one its own. -/
def noteAfter (s : Setting) (notes : Notes) (J : Term Verdict) (final : ExprNote) : ExprNote :=
  if (s.keptType notes J.id).isSome then final else J.label.note

theorem noteAfter_congr {notes notes' : Notes} {J : Term Verdict}
    (h : notes'.expr J.id = notes.expr J.id) (final : ExprNote) :
    s.noteAfter notes' J final = s.noteAfter notes J final := by
  rw [noteAfter, noteAfter, keptType, keptType, Notes.type, Notes.type, h]

/-- The scopes around an expression do not change while expressions are visited. -/
theorem framesAbove_of_effect {Ts : List (Term Mark)} {o : Outcome} {n : NodeId}
    (h : Effect s (Ts.map fun T => .expr T.id) (fun _ => False) p q o) :
    s.arena.framesAbove q.notes n = s.arena.framesAbove p.notes n :=
  List.map_congr_left fun t _ => h.scope_frame t Arena.not_covers_stmt id

/-- What a visit of the expression of a term does: it leaves the notes that typing the term in the
environment finds. -/
def Visits (s : Setting) (env : Env) (depth : ℕ) (p : Progress) (T : Term Mark)
    (note : ExprNote) : Prop :=
  ∃ q, (s.visitExprWithin depth T.id).run p =
      .ok ((s.noteAfter p.notes (s.lexicon.judge env T) note).type, q) ∧
    Effect s [.expr T.id] (fun _ => False) p q
      { findings := (s.lexicon.judge env T).findings
          (s.noteAfter p.notes (s.lexicon.judge env T) note)
        diagnostics := (s.lexicon.judge env T).diagnostics }

variable {env : Env} {T : Term Mark} {note : ExprNote}

/-- An expression that keeps its type has been visited before. -/
theorem visits_of_kept (hT : s.arena.HoldsTerm T) {type : Ty}
    (hkept : s.keptType p.notes T.id = some type)
    (recorded : ∀ f ∈ (s.lexicon.judge env T).findings note, p.notes.expr f.expr = f.note) :
    s.Visits env (depth + 1) p T note := by
  obtain ⟨parent, hnode⟩ := hT.exists_node
  have hskips : s.skipsResolved = true := by
    by_contra h
    simp [keptType, h] at hkept
  have hafter : s.noteAfter p.notes (s.lexicon.judge env T) note = note := by
    rw [noteAfter, Lexicon.judge_id, hkept]
    rfl
  have hnote : p.notes.expr T.id = note := recorded _ Lexicon.own_mem_findings
  have htype : note.type = some type := by
    rw [← hkept, keptType, if_pos hskips, Notes.type, ← hnote]
  rw [Visits, hafter, htype]
  refine ⟨p, visitExprWithin_kept hnode hkept, ?_⟩
  exact {
    findings := recorded
    finding_mem := fun f hf => Arena.covers_singleton.2 (Lexicon.below_of_mem_findings hT hf)
    scopes := by simp
    scope_mem := by simp
    expr_frame := fun _ _ => rfl
    scope_frame := fun _ _ _ => rfl
    diagnostics := fun h => by rw [hskips] at h; cases h }

/-! ### Operands -/

/-- The note on a visited operand of a term before the term's verdict. -/
def operandNote (s : Setting) (env : Env) (notes : Notes) (T x : Term Mark) : ExprNote :=
  s.noteAfter notes (s.lexicon.judge env x)
    ((s.lexicon.judge env T).noteOn (s.lexicon.judge env x))

/-- What is found on some operands of a term. -/
def operandOutcome (s : Setting) (env : Env) (notes : Notes) (T : Term Mark)
    (xs : List (Term Mark)) : Outcome where
  findings := xs.flatMap fun x => (s.lexicon.judge env x).findings (s.operandNote env notes T x)
  diagnostics := xs.flatMap fun x => (s.lexicon.judge env x).diagnostics

/-- An operand keeps its type or gets its own verdict. -/
theorem operandNote_eq_or (notes : Notes) (T x : Term Mark) :
    s.operandNote env notes T x = (s.lexicon.judge env x).label.note ∨
      s.operandNote env notes T x =
        (s.lexicon.judge env T).noteOn (s.lexicon.judge env x) := by
  rw [operandNote, noteAfter]
  split_ifs
  · exact .inr rfl
  · exact .inl rfl

theorem operandOutcome_concat (notes : Notes) (T x : Term Mark) (done : List (Term Mark)) :
    s.operandOutcome env notes T (done ++ [x]) = s.operandOutcome env notes T done ++
      { findings := (s.lexicon.judge env x).findings (s.operandNote env notes T x)
        diagnostics := (s.lexicon.judge env x).diagnostics } := by
  show Outcome.mk _ _ _ = Outcome.mk _ _ _
  simp [operandOutcome]

section

variable (wf : s.arena.WellFormed) (hT : s.arena.HoldsTerm T)
  (hframes : s.arena.framesAbove p.notes (.expr T.id) = env)
  (operands : ∀ x ∈ T.shape.slots, ∀ q,
    (∀ e, s.arena.Below (.expr x.id) (.expr e) → q.notes.expr e = p.notes.expr e) →
    s.arena.framesAbove q.notes (.expr x.id) = env →
    s.Visits env depth q x ((s.lexicon.judge env T).noteOn (s.lexicon.judge env x)))
include wf hT hframes operands

/-- After some operands, the next one is visited. -/
theorem operand_run {done rest : List (Term Mark)} {x : Term Mark}
    (hslots : T.shape.slots = done ++ x :: rest)
    (hq : Effect s (done.map fun x => .expr x.id) (fun _ => False) p q
      (s.operandOutcome env p.notes T done)) :
    ∃ r, (s.visitExprWithin depth x.id).run q =
        .ok ((s.operandNote env p.notes T x).type, r) ∧
      Effect s ((done ++ [x]).map fun x => .expr x.id) (fun _ => False) p r
        (s.operandOutcome env p.notes T (done ++ [x])) := by
  have hx : x ∈ T.shape.slots := by
    rw [hslots]
    exact List.mem_append_right _ List.mem_cons_self
  have hsplit : s.arena.children (.expr T.id) =
      .ok ((done.map fun x => .expr x.id) ++ .expr x.id :: rest.map fun x => .expr x.id) := by
    rw [hT.children_eq, hslots, List.map_append, List.map_cons]
  have hsame : ∀ e, s.arena.Below (.expr x.id) (.expr e) →
      q.notes.expr e = p.notes.expr e := by
    intro e he
    refine hq.expr_frame e fun hc => wf.disjoint_of_append hsplit hc ?_
    exact ⟨_, List.mem_cons_self, he⟩
  have hframes_x : s.arena.framesAbove q.notes (.expr x.id) = env := by
    rw [framesAbove_of_effect hq, wf.framesAbove_child (hT.child hx)]
    exact hframes
  obtain ⟨r, hr, hrx⟩ := operands x hx q hsame hframes_x
  have hnote : s.noteAfter q.notes (s.lexicon.judge env x)
      ((s.lexicon.judge env T).noteOn (s.lexicon.judge env x)) =
      s.operandNote env p.notes T x :=
    noteAfter_congr (by rw [Lexicon.judge_id]; exact hsame x.id (.refl _)) _
  rw [hnote] at hr hrx
  refine ⟨r, hr, ?_⟩
  rw [List.map_append, operandOutcome_concat]
  refine hq.andThen hrx (fun n hn hnx => wf.disjoint_of_append hsplit hn ?_)
    fun t ht => absurd ht Arena.not_covers_stmt
  exact Arena.covers_append (R := [_]).2 (.inl hnx)

/-- The operands are visited one after another. -/
theorem operands_run :
    ∃ q, ((T.shape.map (·.id)).mapM fun e =>
        return (⟨e, ← s.visitExprWithin depth e⟩ : Operand) : Visit (Expr Operand)).run p =
          .ok (T.shape.map fun x => ⟨x.id, (s.operandNote env p.notes T x).type⟩, q) ∧
      Effect s (T.shape.slots.map fun x => .expr x.id) (fun _ => False) p q
        (s.operandOutcome env p.notes T T.shape.slots) := by
  rw [Expr.mapM_map]
  refine Expr.run_mapM _ (fun x => (⟨x.id, (s.operandNote env p.notes T x).type⟩ : Operand))
    (fun done q => Effect s (done.map fun x => .expr x.id) (fun _ => False) p q
      (s.operandOutcome env p.notes T done)) T.shape (fun done x rest hslots q hq => ?_)
    (Effect.refl s _ p)
  obtain ⟨r, hr, heffect⟩ := operand_run wf hT hframes operands hslots hq
  refine ⟨r, ?_, heffect⟩
  rw [run_bind_of_run hr]
  rfl

/-- An expression is visited by visiting its operands and concluding. -/
theorem visits_of_operands (hkept : s.keptType p.notes T.id = none) :
    s.Visits env (depth + 1) p T note := by
  obtain ⟨parent, hnode⟩ := hT.exists_node
  obtain ⟨q, hrun, heffect⟩ := operands_run wf hT hframes operands
  have hq : ∀ x ∈ T.shape.slots, q.notes.expr x.id = s.operandNote env p.notes T x :=
    fun x hx => heffect.findings _ (List.mem_flatMap.2 ⟨x, hx, Lexicon.own_mem_findings⟩)
  have hbelow : ∀ x ∈ T.shape.slots, ∀ y ∈ x.shape.slots,
      q.notes.expr y.id = (s.lexicon.judge env x).noteOn (s.lexicon.judge env y) := by
    intro x hx y hy
    have hmem : ⟨y.id, (s.lexicon.judge env x).noteOn (s.lexicon.judge env y)⟩ ∈
        (s.lexicon.judge env x).findings (s.operandNote env p.notes T x) :=
      Lexicon.mem_findings_of_operand hy Lexicon.own_mem_findings
    exact heffect.findings _ (List.mem_flatMap.2 ⟨x, hx, hmem⟩)
  have hframes_q : s.arena.framesAbove q.notes (.expr T.id) = env :=
    (framesAbove_of_effect heffect).trans hframes
  have hjudge := judge_eq wf hT hframes_q
    (fun x hx => hq x hx ▸ operandNote_eq_or p.notes T x) hbelow
  have htypes : (T.shape.map fun x =>
        (⟨x.id, (s.operandNote env p.notes T x).type⟩ : Operand)) =
      T.shape.map fun x => ⟨x.id, (q.notes.expr x.id).type⟩ :=
    Expr.map_congr fun x hx => by rw [hq x hx]
  rw [htypes] at hrun
  have hafter : s.noteAfter p.notes (s.lexicon.judge env T) note =
      (s.lexicon.judge env T).label.note := by
    rw [noteAfter, Lexicon.judge_id, hkept]
    rfl
  rw [Visits, hafter]
  exact ⟨_, visitExprWithin_open hnode hkept hrun hjudge,
    effect_conclude wf hT (fun x _ => operandNote_eq_or p.notes T x) heffect⟩

end

/-- A visit of an expression leaves the notes that typing its term finds. -/
theorem visits (wf : s.arena.WellFormed) {rank : ExprId → ℕ}
    (hrank : ∀ e x, s.arena.Child (.expr e) (.expr x) → rank x < rank e)
    {target : ExprId → ExprNote} (hT : s.arena.HoldsTerm T) (hdepth : rank T.id < depth)
    (hframes : s.arena.framesAbove p.notes (.expr T.id) = env)
    (hprep : Prepared s target p (.expr T.id))
    (htarget : s.skipsResolved = true →
      ∀ f ∈ (s.lexicon.judge env T).findings note, target f.expr = f.note) :
    s.Visits env depth p T note := by
  induction T using Term.induct generalizing depth p note with
  | node T ih =>
    obtain ⟨depth, rfl⟩ : ∃ d, depth = d + 1 := ⟨depth - 1, by omega⟩
    cases hkept : s.keptType p.notes T.id with
    | some type =>
      apply visits_of_kept hT hkept
      intro f hf
      have hskips : s.skipsResolved = true := by
        by_contra h
        simp [keptType, h] at hkept
      rw [hprep T.id (.refl _) (by rw [hkept]; rfl) f.expr
        (Lexicon.below_of_mem_findings hT hf)]
      exact htarget hskips f hf
    | none =>
      refine visits_of_operands wf hT hframes (fun x hx q hsame hframes_x => ?_) hkept
      have hxT := hT.child hx
      have hlt := hrank _ _ hxT
      refine ih x hx (hT.operand hx) (by omega) hframes_x ?_ fun hskips f hf => ?_
      · exact (hprep.below (.of_child hxT (.refl _))).congr hsame
      · exact htarget hskips f (Lexicon.mem_findings_of_operand hx hf)

/-- A visit of an expression with nothing above it to settle its note. -/
theorem visitExpr_run (wf : s.arena.WellFormed) {target : ExprId → ExprNote}
    (hT : s.arena.HoldsTerm T) (hframes : s.arena.framesAbove p.notes (.expr T.id) = env)
    (hprep : Prepared s target p (.expr T.id))
    (htarget : s.skipsResolved = true →
      ∀ f ∈ (s.lexicon.evaluate [T] env).1.findings, target f.expr = f.note) :
    ∃ q, (s.visitExpr T.id).run p = .ok ((s.lexicon.judge env T).label.type, q) ∧
      Effect s [.expr T.id] (fun _ => False) p q (s.lexicon.evaluate [T] env).1 := by
  obtain ⟨rank, hle, hrank⟩ := wf.exists_exprRank
  have hfindings : (s.lexicon.evaluate [T] env).1.findings =
      (s.lexicon.judge env T).findings (s.lexicon.judge env T).label.note :=
    List.append_nil _
  rw [hfindings] at htarget
  obtain ⟨q, hrun, heffect⟩ := visits wf hrank hT (Nat.lt_succ_of_le (hle T.id)) hframes hprep
    htarget
  have hafter : s.noteAfter p.notes (s.lexicon.judge env T) (s.lexicon.judge env T).label.note =
      (s.lexicon.judge env T).label.note := ite_self _
  rw [hafter] at hrun heffect
  refine ⟨q, hrun, ?_⟩
  simp only [Lexicon.evaluate, List.flatMap_cons, List.flatMap_nil, List.append_nil]
  exact heffect

end Setting
end ExprTyping
