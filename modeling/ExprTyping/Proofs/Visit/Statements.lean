import ExprTyping.Proofs.Visit.Stage

/-!
# Visiting statements

A visit of a statement does what the walk through its program does (`Setting.performs`), if it
starts from where the walk starts (`Ready`).
-/

namespace ExprTyping

namespace Setting

variable {s : Setting} {opens : Program → Bool} {target : ExprId → ExprNote} {P : Program}
  {initial : Scope} {p : Progress} {env env₀ : Env} {depth : ℕ}

/-! ## Steps -/

/-- A loop's pattern is bound in the body, if names can be declared there, and otherwise in the
loop. -/
theorem bindLoop_run (loop : StmtId) {body : StmtId} (hbody : s.arena.contains (.stmt body))
    (element : Ty) (pattern : Pattern) (p : Progress) :
    (s.bindLoop loop body element pattern).run p =
      .ok ((), (p.report (.stmt loop) pattern.issue?).declare
        (s.arena.binder loop body) (pattern.bound element)) := by
  have hreport : p.report (.stmt loop) none = p := by
    show Progress.mk p.notes (p.diagnostics ++ []) = p
    rw [List.append_nil]
  obtain ⟨node, hnode⟩ := Arena.exists_stmt hbody
  cases pattern with
  | identifier name =>
    rw [bindLoop, hnode, Arena.binder, Arena.owns_eq hnode, Pattern.issue?, hreport]
    rfl
  | wildcard =>
    rw [Pattern.issue?, hreport]
    rfl
  | tuple items => rfl

/-- The variables of a statement are declared in the innermost scope. -/
theorem declareVariables_run (wf : s.arena.WellFormed) {done rest : List NodeId} {q : Progress}
    {o : Outcome} (hP : s.arena.contains (.stmt P.id)) (h : Stage s P p done rest q o env)
    (declarations : List (VariableDeclaration ExprId)) :
    ∃ r, (s.declareVariables P.id declarations).run q = .ok ((), r) ∧
      Stage s P p done rest r o (env.declare (declarations.map fun d => ⟨d.name, d.type⟩)) := by
  rw [declareVariables, wf.nearestScope_eq hP]
  cases howner : (s.arena.owners (.stmt P.id)).head? with
  | some t => exact ⟨_, rfl, h.declare wf howner _⟩
  | none =>
    refine ⟨q, rfl, ?_⟩
    have hframes := h.frames
    rw [Arena.frames, List.head?_eq_none_iff.1 howner] at hframes
    subst hframes
    exact h

theorem visitStmtWithin_forIn {loop body : StmtId} {x : ExprId} {pattern : Pattern}
    {parent : Option StmtId} {ownsScope : Bool}
    (hloop : s.arena.stmt loop = .ok ⟨.forIn pattern x body, parent, ownsScope⟩)
    {type : Option Ty} {q r : Progress} (hx : (s.visitExpr x).run p = .ok (type, q))
    (hbind : (s.bindLoop loop body (Rule.loopElement s.catalog type).1 pattern).run
      (q.report (.stmt loop) (Rule.loopElement s.catalog type).2) = .ok ((), r)) :
    (s.visitStmtWithin (depth + 1) loop).run p = (s.visitStmtWithin depth body).run r := by
  rw [visitStmtWithin, hloop]
  show (s.visitExpr x >>= fun type => do
    modify fun p => p.report (.stmt loop) (Rule.loopElement s.catalog type).2
    s.bindLoop loop body (Rule.loopElement s.catalog type).1 pattern
    s.visitStmtWithin depth body : Visit Unit).run p = _
  rw [run_bind_of_run hx]
  show (s.bindLoop loop body _ pattern >>= fun _ => s.visitStmtWithin depth body :
    Visit Unit).run (q.report (.stmt loop) _) = _
  rw [run_bind_of_run hbind]

/-- Up to its body, a loop types what it iterates over and binds its variable. The body is then
visited in a scope that starts with the variable, if it has one. -/
theorem loopHead_run (wf : s.arena.WellFormed)
    (hopens : ∀ Q, s.arena.Holds Q → opens Q = s.arena.owns Q.id) (hP : s.arena.Holds P)
    {pattern : Pattern} {x : Term Mark} {body : Program} (hk : P.shape = .forIn pattern x body)
    (hprep : Prepared s target p (.stmt P.id))
    (htarget : s.skipsResolved = true →
      ∀ f ∈ (s.lexicon.walkInside opens P.id P.shape env).1.findings, target f.expr = f.note)
    {cs : List NodeId} (h : Stage s P p [] cs p {} env) :
    ∃ q q' o env' ds,
      (s.visitExpr x.id).run p = .ok ((s.lexicon.judge env x).label.type, q) ∧
      (s.bindLoop P.id body.id
          (Rule.loopElement s.catalog (s.lexicon.judge env x).label.type).1 pattern).run
        (q.report (.stmt P.id)
          (Rule.loopElement s.catalog (s.lexicon.judge env x).label.type).2) =
        .ok ((), q'.declare body.id ds) ∧
      Stage s P p [.expr x.id] [.stmt body.id] q' o env' ∧
      s.lexicon.walkInside opens P.id P.shape env =
        (o ++ (s.lexicon.walk opens body (ds.foldl Scope.record {}) env').1,
          (s.lexicon.walk opens body (ds.foldl Scope.record {}) env').2) := by
  have hx : s.arena.HoldsTerm x := hP.expr (by rw [hk]; exact List.mem_singleton.2 rfl)
  have hbody : s.arena.Holds body := hP.stmt (by rw [hk]; exact List.mem_singleton.2 rfl)
  have hcs := h.children
  rw [hP.children_eq, hk] at hcs
  rw [hk, Lexicon.walkInside] at htarget
  obtain ⟨q, hq, hstage⟩ := h.expr wf hx (Except.ok.inj hcs).symm hprep
    fun hs f hf => htarget hs f (List.mem_append_left _ (List.mem_append_left _ hf))
  generalize hloop : Rule.loopElement s.catalog (s.lexicon.judge env x).label.type = loop
  obtain ⟨element, issue⟩ := loop
  obtain ⟨q', env', ds, hq', hstage, hwalk⟩ :=
    ((hstage.report wf issue).report wf pattern.issue?).bind wf (hopens P hP)
      (hopens body hbody) (pattern.bound element)
  obtain ⟨parent, ownsScope, hnode⟩ := hbody.exists_node
  refine ⟨q, q', _, env', ds, hq, ?_, hstage, ?_⟩
  · rw [bindLoop_run P.id (Arena.contains_of_stmt hnode), hq']
  · have hloop' : Rule.loopElement s.lexicon.catalog (s.lexicon.judge env x).label.type =
        (element, issue) := hloop
    have hreports (o : Outcome) :
        o ++ { diagnostics := (issue.toList ++ pattern.issue?.toList).map (⟨·, .stmt P.id⟩) } =
          o ++ { diagnostics := issue.toList.map (⟨·, .stmt P.id⟩) } ++
            { diagnostics := pattern.issue?.toList.map (⟨·, .stmt P.id⟩) } := by
      rw [List.map_append, Outcome.append_assoc]
      rfl
    obtain ⟨id, shape⟩ := P
    obtain rfl : shape = .forIn pattern x body := hk
    rw [Lexicon.walkInside, hwalk]
    simp only [hloop']
    refine Prod.ext ?_ rfl
    show (s.lexicon.evaluate [x] env).1 ++ { diagnostics := _ } ++ _ = _
    rw [hreports]
    rfl

/-! ## What is inside a statement -/

section

variable (wf : s.arena.WellFormed) (hopens : ∀ Q, s.arena.Holds Q → opens Q = s.arena.owns Q.id)
  (hP : s.arena.Holds P) (ready : Ready s opens target P initial env₀ p)
  (perform : ∀ Q ∈ P.shape.stmtSlots, ∀ initial env p, Ready s opens target Q initial env p →
    Performs s opens depth Q initial env p)
  (htarget : s.skipsResolved = true →
    ∀ f ∈ (s.lexicon.walkInside opens P.id P.shape env).1.findings, target f.expr = f.note)
include wf hopens hP ready perform htarget

/-- What is inside a statement is visited as the walk goes through it. -/
theorem inside_run {cs : List NodeId} (h : Stage s P p [] cs p {} env) :
    ∃ q, (s.visitStmtWithin (depth + 1) P.id).run p = .ok ((), q) ∧
      Stage s P p cs [] q (s.lexicon.walkInside opens P.id P.shape env).1
        (s.lexicon.walkInside opens P.id P.shape env).2 := by
  obtain ⟨parent, ownsScope, hnode⟩ := hP.exists_node
  have hcs := h.children
  rw [hP.children_eq] at hcs
  obtain rfl := (Except.ok.inj hcs).symm
  obtain ⟨id, shape⟩ := P
  rw [visitStmtWithin, hnode]
  cases shape with
  | block body =>
    have hrest := (List.append_nil (body.map fun Q => NodeId.stmt Q.id)).symm
    obtain ⟨q, hq, hstage⟩ := h.stmts wf ready hrest perform htarget
    exact ⟨q, hq, hstage⟩
  | conditional c body otherwise =>
    rw [Lexicon.walkInside_conditional] at htarget ⊢
    have hrest := (List.append_nil ((body :: otherwise.toList).map fun Q => NodeId.stmt Q.id)).symm
    obtain ⟨q, hq, hstage⟩ := h.expr wf (hP.expr (List.mem_singleton.2 rfl)) rfl ready.prepared
      fun hs f hf => htarget hs f (List.mem_append_left _ hf)
    obtain ⟨r, hr, hstage⟩ := hstage.stmts wf ready hrest perform
      fun hs f hf => htarget hs f (List.mem_append_right _ hf)
    refine ⟨r, ?_, hstage⟩
    rw [List.map_cons, ← Option.toList_map] at hr
    show (s.visitExpr c.id >>= fun _ => s.visitStmtWithin depth body.id >>= fun _ =>
      (otherwise.map (·.id)).forM (s.visitStmtWithin depth)).run p = _
    rw [run_bind_of_run hq, ← forM_toList]
    exact hr
  | whileLoop c body =>
    rw [Lexicon.walkInside_whileLoop] at htarget ⊢
    obtain ⟨q, hq, hstage⟩ := h.expr wf (hP.expr (List.mem_singleton.2 rfl)) rfl ready.prepared
      fun hs f hf => htarget hs f (List.mem_append_left _ hf)
    have hrest := (List.append_nil ([body].map fun Q => NodeId.stmt Q.id)).symm
    obtain ⟨r, hr, hstage⟩ := hstage.stmts wf ready hrest perform
      fun hs f hf => htarget hs f (List.mem_append_right _ hf)
    refine ⟨r, ?_, hstage⟩
    show (s.visitExpr c.id >>= fun _ => s.visitStmtWithin depth body.id).run p = _
    rw [run_bind_of_run hq]
    show ((some body.id).forM (s.visitStmtWithin depth)).run q = _
    rw [← forM_toList]
    exact hr
  | forIn pattern x body =>
    obtain ⟨q, q', o, env', ds, hq, hbind, hstage, hwalk⟩ :=
      loopHead_run wf hopens hP rfl ready.prepared htarget h
    rw [hwalk] at htarget ⊢
    have hready := hstage.ready wf ready rfl ds
      fun hs f hf => htarget hs f (List.mem_append_right _ hf)
    obtain ⟨r, hr, hstage⟩ := hstage.stmt wf rfl ds
      (perform body (List.mem_singleton.2 rfl) _ env' _ hready)
    refine ⟨r, ?_, hstage⟩
    rw [← hnode, ← visitStmtWithin, visitStmtWithin_forIn hnode hq hbind]
    exact hr
  | «variables» declarations =>
    obtain ⟨q, hq, hstage⟩ := declareVariables_run wf (Arena.contains_of_stmt hnode) h
      (declarations.map (·.map (·.id)))
    have hnames : (declarations.map (·.map (·.id))).map
        (fun d : VariableDeclaration ExprId => Definition.mk d.name d.type) =
        declarations.map fun d => ⟨d.name, d.type⟩ := List.map_map
    rw [hnames] at hstage
    obtain ⟨r, hr, hstage⟩ := hstage.exprs_only wf (fun T hT => hP.expr hT) rfl rfl
      ready.prepared htarget
    refine ⟨r, ?_, hstage⟩
    rw [← Stmt.exprSlots_map (fun T : Term Mark => T.id) (fun Q : Program => Q.id)] at hr
    show (s.declareVariables id _ >>= fun _ => _ : Visit Unit).run p = _
    rw [run_bind_of_run hq, forM_initializers]
    exact hr
  | expressions items =>
    obtain ⟨q, hq, hstage⟩ :=
      h.exprs_only wf (fun T hT => hP.expr hT) rfl rfl ready.prepared htarget
    exact ⟨q, hq, hstage⟩
  | returning value =>
    obtain ⟨q, hq, hstage⟩ :=
      h.exprs_only wf (fun T hT => hP.expr hT) rfl rfl ready.prepared htarget
    refine ⟨q, ?_, hstage⟩
    rw [Stmt.exprSlots, ← Option.toList_map, forM_toList] at hq
    exact hq
  | breaking | continuing => exact ⟨p, rfl, h⟩

end

/-- The part of a walk that is inside a statement finds nothing else than the walk. -/
theorem ready_inside_target (ready : Ready s opens target P initial env₀ p)
    (hs : s.skipsResolved = true) :
    ∀ f ∈ (s.lexicon.walkInside opens P.id P.shape
      (if opens P then initial :: env₀ else env₀)).1.findings, target f.expr = f.note :=
  fun f hf => ready.target_eq hs f ((Lexicon.inside_within ..).findings hf)

/-- A visit of a statement does what the walk through its program does. -/
theorem performs (wf : s.arena.WellFormed) {rank : StmtId → ℕ}
    (hrank : ∀ t u, s.arena.Child (.stmt t) (.stmt u) → rank u < rank t)
    (hopens : ∀ Q, s.arena.Holds Q → opens Q = s.arena.owns Q.id) (hP : s.arena.Holds P)
    (hdepth : rank P.id < depth) (ready : Ready s opens target P initial env₀ p) :
    Performs s opens depth P initial env₀ p := by
  induction P using Program.induct generalizing depth initial env₀ p with
  | node P ih =>
    obtain ⟨depth, rfl⟩ : ∃ d, depth = d + 1 := ⟨depth - 1, by omega⟩
    have perform : ∀ Q ∈ P.shape.stmtSlots, ∀ initial env p,
        Ready s opens target Q initial env p → Performs s opens depth Q initial env p := by
      intro Q hQ initial env p hready
      have hlt := hrank _ _ (hP.child_stmt hQ)
      exact ih Q hQ (hP.stmt hQ) (by omega) hready
    obtain ⟨q, hq, hstage⟩ := inside_run wf hopens hP ready perform (ready_inside_target ready)
      (Stage.start (hopens P hP) ready hP.children_eq)
    exact ⟨q, hq, hstage.finish (hopens P hP)⟩

end Setting
end ExprTyping
