import ExprTyping.Proofs.Visit.Statements

/-!
# The course of a visit

While a statement is visited, the visit comes to its inner statements, one after another. A `Call`
says which statement is to be visited next and how far the visit has come by then. `Setting.Calls`
relates a call to those that are made for the inner statements.

* A call is made for every inner statement (`Setting.exists_call`), and only one
  (`Setting.Calls.unique`).
* Hence the visit of a statement comes to every statement below it (`Setting.Follows.exists_comes`),
  and what it comes to is visited as a part of the walk (`Setting.Follows.of_comes`).
-/

namespace ExprTyping

/-- A statement to be visited to some depth, and how far the visit has come. -/
structure Call where
  depth : ℕ
  stmt : StmtId
  progress : Progress

namespace Setting

/-- While the first call is carried out, the second one is made. -/
inductive Calls (s : Setting) : Call → Call → Prop
  /-- A statement of a block, after those before it. -/
  | block {depth : ℕ} {b u : StmtId} {before after : List StmtId} {parent : Option StmtId}
      {ownsScope : Bool} {p q : Progress}
      (node : s.arena.stmt b = .ok ⟨.block (before ++ u :: after), parent, ownsScope⟩)
      (run : (before.forM (s.visitStmtWithin depth)).run p = .ok ((), q)) :
      Calls s ⟨depth + 1, b, p⟩ ⟨depth, u, q⟩
  /-- The first branch, after the condition. -/
  | body {depth : ℕ} {c u : StmtId} {x : ExprId} {otherwise : Option StmtId}
      {parent : Option StmtId} {ownsScope : Bool} {type : Option Ty} {p q : Progress}
      (node : s.arena.stmt c = .ok ⟨.conditional x u otherwise, parent, ownsScope⟩)
      (condition : (s.visitExpr x).run p = .ok (type, q)) :
      Calls s ⟨depth + 1, c, p⟩ ⟨depth, u, q⟩
  /-- The second branch, after the first. -/
  | otherwise {depth : ℕ} {c t u : StmtId} {x : ExprId} {parent : Option StmtId}
      {ownsScope : Bool} {type : Option Ty} {p q r : Progress}
      (node : s.arena.stmt c = .ok ⟨.conditional x t (some u), parent, ownsScope⟩)
      (condition : (s.visitExpr x).run p = .ok (type, q))
      (run : (s.visitStmtWithin depth t).run q = .ok ((), r)) :
      Calls s ⟨depth + 1, c, p⟩ ⟨depth, u, r⟩
  /-- The body of a loop with a condition, after the condition. -/
  | whileLoop {depth : ℕ} {l u : StmtId} {x : ExprId} {parent : Option StmtId} {ownsScope : Bool}
      {type : Option Ty} {p q : Progress}
      (node : s.arena.stmt l = .ok ⟨.whileLoop x u, parent, ownsScope⟩)
      (condition : (s.visitExpr x).run p = .ok (type, q)) :
      Calls s ⟨depth + 1, l, p⟩ ⟨depth, u, q⟩
  /-- The body of a loop over a collection, after the variable is bound. -/
  | forIn {depth : ℕ} {l u : StmtId} {x : ExprId} {pattern : Pattern} {parent : Option StmtId}
      {ownsScope : Bool} {type : Option Ty} {p q r : Progress}
      (node : s.arena.stmt l = .ok ⟨.forIn pattern x u, parent, ownsScope⟩)
      (iterated : (s.visitExpr x).run p = .ok (type, q))
      (bind : (s.bindLoop l u (Rule.loopElement s.catalog type).1 pattern).run
        (q.report (.stmt l) (Rule.loopElement s.catalog type).2) = .ok ((), r)) :
      Calls s ⟨depth + 1, l, p⟩ ⟨depth, u, r⟩

variable {s : Setting} {c d d' : Call}

namespace Calls

/-- Calls are made for inner statements. -/
theorem child (h : s.Calls c d) : s.arena.Child (.stmt c.stmt) (.stmt d.stmt) := by
  cases h with
  | block node | body node | otherwise node | whileLoop node | forIn node =>
    refine (Arena.child_stmt_iff node).2 (.inr ⟨_, ?_, rfl⟩)
    simp [Stmt.stmtSlots]

/-- A statement stands in a block once. -/
theorem before_eq (wf : s.arena.WellFormed) {b u : StmtId} {before after : List StmtId}
    {before' after' : List StmtId} {parent : Option StmtId} {ownsScope : Bool}
    (node : s.arena.stmt b = .ok ⟨.block (before ++ u :: after), parent, ownsScope⟩)
    (h : before ++ u :: after = before' ++ u :: after') : before = before' := by
  have hnodup := (wf.nodup_children _ _ (Arena.children_of_stmt node)).of_append_right.of_map
  have hu := (List.nodup_cons.1 (List.nodup_middle.1 hnodup)).1
  rw [List.mem_append, not_or] at hu
  exact ((List.append_cons_inj_of_notMem hu.1 hu.2).1 h).1

/-- The two branches of a conditional are different statements. -/
theorem branches_ne (wf : s.arena.WellFormed) {c t u : StmtId} {x : ExprId}
    {parent : Option StmtId} {ownsScope : Bool}
    (node : s.arena.stmt c = .ok ⟨.conditional x t (some u), parent, ownsScope⟩) : t ≠ u := by
  rintro rfl
  have hnodup := wf.nodup_children _ _ (Arena.children_of_stmt node)
  simp [Stmt.stmtSlots, Stmt.exprSlots] at hnodup

/-- At most one call is made for an inner statement. -/
theorem unique (wf : s.arena.WellFormed) (h : s.Calls c d) (h' : s.Calls c d')
    (heq : d.stmt = d'.stmt) : d = d' := by
  cases h with
  | block node run =>
    cases h' with
    | block node' run' =>
      obtain rfl : _ = _ := heq
      have hsame := node.symm.trans node'
      simp only [Except.ok.injEq, StmtNode.mk.injEq, Stmt.block.injEq] at hsame
      obtain rfl := before_eq wf node hsame.1
      cases run.symm.trans run'
      rfl
    | body node' | otherwise node' | whileLoop node' | forIn node' => cases node.symm.trans node'
  | body node condition =>
    cases h' with
    | body node' condition' =>
      cases node.symm.trans node'
      cases condition.symm.trans condition'
      rfl
    | otherwise node' =>
      cases node.symm.trans node'
      exact absurd heq (branches_ne wf node)
    | block node' | whileLoop node' | forIn node' => cases node.symm.trans node'
  | otherwise node condition run =>
    cases h' with
    | body node' =>
      cases node.symm.trans node'
      exact absurd heq.symm (branches_ne wf node)
    | otherwise node' condition' run' =>
      cases node.symm.trans node'
      cases condition.symm.trans condition'
      cases run.symm.trans run'
      rfl
    | block node' | whileLoop node' | forIn node' => cases node.symm.trans node'
  | whileLoop node condition =>
    cases h' with
    | whileLoop node' condition' =>
      cases node.symm.trans node'
      cases condition.symm.trans condition'
      rfl
    | block node' | body node' | otherwise node' | forIn node' => cases node.symm.trans node'
  | forIn node iterated bind =>
    cases h' with
    | forIn node' iterated' bind' =>
      cases node.symm.trans node'
      cases iterated.symm.trans iterated'
      cases bind.symm.trans bind'
      rfl
    | block node' | body node' | otherwise node' | whileLoop node' => cases node.symm.trans node'

/-- A call is carried out: if it fails, so does the one during which it is made. -/
theorem fails (h : s.Calls c d) {fault : Fault}
    (hd : (s.visitStmtWithin d.depth d.stmt).run d.progress = .error fault) :
    (s.visitStmtWithin c.depth c.stmt).run c.progress = .error fault := by
  cases h with
  | @block depth b u before after _ _ p q node run =>
    rw [visitStmtWithin, node]
    show (forM (before ++ u :: after) (s.visitStmtWithin depth) : Visit Unit).run p = _
    rw [List.forM_append]
    show (before.forM (s.visitStmtWithin depth) >>= fun _ => s.visitStmtWithin depth u >>= fun _ =>
      after.forM (s.visitStmtWithin depth)).run p = _
    rw [run_bind_of_run run, run_bind_of_error hd]
  | @body depth c u x otherwise _ _ _ p q node condition =>
    rw [visitStmtWithin, node]
    show (s.visitExpr x >>= fun _ => s.visitStmtWithin depth u >>= fun _ => _).run p = _
    rw [run_bind_of_run condition, run_bind_of_error hd]
  | @otherwise depth c t u x _ _ _ p q r node condition run =>
    rw [visitStmtWithin, node]
    show (s.visitExpr x >>= fun _ => s.visitStmtWithin depth t >>= fun _ =>
      s.visitStmtWithin depth u).run p = _
    rw [run_bind_of_run condition, run_bind_of_run run]
    exact hd
  | @whileLoop depth l u x _ _ _ p q node condition =>
    rw [visitStmtWithin, node]
    show (s.visitExpr x >>= fun _ => s.visitStmtWithin depth u).run p = _
    rw [run_bind_of_run condition]
    exact hd
  | forIn node iterated bind =>
    rw [visitStmtWithin_forIn node iterated bind]
    exact hd

end Calls

/-! ## Every inner statement is called -/

variable {opens : Program → Bool} {target : ExprId → ExprNote} {P Q : Program}
  {initial : Scope} {p q : Progress} {env env₀ : Env} {depth : ℕ} {rank : StmtId → ℕ}

/-- Among several statements that remain to be visited, the visit comes to each. -/
theorem exists_ready (wf : s.arena.WellFormed) (ready : Ready s opens target P initial env₀ p)
    {done rest : List NodeId} {o : Outcome} (h : Stage s P p done rest q o env)
    (before after : List Program)
    (hrest : rest = (before ++ Q :: after).map fun Q => .stmt Q.id)
    (perform : ∀ Q ∈ P.shape.stmtSlots, ∀ initial env p, Ready s opens target Q initial env p →
      Performs s opens depth Q initial env p)
    (hbefore : ∀ Q ∈ before, Q ∈ P.shape.stmtSlots)
    (htarget : s.skipsResolved = true →
      ∀ f ∈ (s.lexicon.walkAll opens (before ++ Q :: after) env).1.findings,
        target f.expr = f.note) :
    ∃ r env', ((before.map (·.id)).forM (s.visitStmtWithin depth)).run q = .ok ((), r) ∧
      Ready s opens target Q {} env' r ∧
      (s.lexicon.walk opens Q {} env').1.Within
        (s.lexicon.walkAll opens (before ++ Q :: after) env).1 := by
  have hwithin := Lexicon.within_walkAll s.lexicon opens before after Q env
  have hfirst : (s.lexicon.walkAll opens before env).1.findings ⊆
      (s.lexicon.walkAll opens (before ++ Q :: after) env).1.findings := by
    rw [Lexicon.walkAll_append]
    exact List.subset_append_left _ _
  rw [List.map_append] at hrest
  obtain ⟨r, hr, hstage⟩ := h.stmts wf ready hrest (fun U hU => perform U (hbefore U hU))
    fun hs f hf => htarget hs f (hfirst hf)
  refine ⟨r, _, hr, ?_, hwithin⟩
  exact hstage.ready wf ready rfl [] fun hs f hf => htarget hs f (hwithin.findings hf)

variable (s opens target rank) in
/-- What the call leads to is a part of a walk that finds `o`. -/
def Follows (o : Outcome) (c : Call) : Prop :=
  ∃ Q initial env, s.arena.Holds Q ∧ Q.id = c.stmt ∧ rank c.stmt < c.depth ∧
    Ready s opens target Q initial env c.progress ∧
    (s.lexicon.walk opens Q initial env).1.Within o

section

variable (wf : s.arena.WellFormed)
  (hrank : ∀ t u, s.arena.Child (.stmt t) (.stmt u) → rank u < rank t)
  (hopens : ∀ Q, s.arena.Holds Q → opens Q = s.arena.owns Q.id)
include wf hrank hopens

/-- The visit of a statement comes to every inner statement. It is then visited as a part of the
walk. -/
theorem exists_call (hP : s.arena.Holds P) (hdepth : rank P.id < depth + 1)
    (ready : Ready s opens target P initial env₀ p) (hQ : Q ∈ P.shape.stmtSlots) :
    ∃ q initial' env', s.Calls ⟨depth + 1, P.id, p⟩ ⟨depth, Q.id, q⟩ ∧
      Ready s opens target Q initial' env' q ∧
      (s.lexicon.walk opens Q initial' env').1.Within
        (s.lexicon.walk opens P initial env₀).1 := by
  have perform : ∀ Q ∈ P.shape.stmtSlots, ∀ initial env p,
      Ready s opens target Q initial env p → Performs s opens depth Q initial env p := by
    intro Q hQ initial env p hready
    have hlt := hrank _ _ (hP.child_stmt hQ)
    exact performs wf hrank hopens (hP.stmt hQ) (by omega) hready
  have htarget := ready_inside_target ready
  have hinside := Lexicon.inside_within s.lexicon opens P initial env₀
  have hstart := Stage.start (hopens P hP) ready hP.children_eq
  generalize (if opens P then initial :: env₀ else env₀) = env at htarget hinside hstart
  suffices ∃ q initial' env', s.Calls ⟨depth + 1, P.id, p⟩ ⟨depth, Q.id, q⟩ ∧
      Ready s opens target Q initial' env' q ∧
      (s.lexicon.walk opens Q initial' env').1.Within
        (s.lexicon.walkInside opens P.id P.shape env).1 by
    obtain ⟨q, initial', env', hcall, hready, hwithin⟩ := this
    exact ⟨q, initial', env', hcall, hready, hwithin.trans hinside⟩
  obtain ⟨parent, ownsScope, hnode⟩ := hP.exists_node
  obtain ⟨id, shape⟩ := P
  cases shape with
  | block body =>
    obtain ⟨before, after, rfl⟩ := List.append_of_mem (show Q ∈ body from hQ)
    obtain ⟨r, env', hr, hready, hwithin⟩ := exists_ready wf ready hstart before after rfl perform
      (fun U hU => List.mem_append_left _ hU) htarget
    rw [Stmt.map, List.map_append, List.map_cons] at hnode
    exact ⟨r, {}, env', .block hnode hr, hready, hwithin⟩
  | conditional c body otherwise =>
    rw [Lexicon.walkInside_conditional] at htarget ⊢
    obtain ⟨q, hq, hstage⟩ := hstart.expr wf (hP.expr (List.mem_singleton.2 rfl)) rfl
      ready.prepared fun hs f hf => htarget hs f (List.mem_append_left _ hf)
    have htarget : s.skipsResolved = true →
        ∀ f ∈ (s.lexicon.walkAll opens (body :: otherwise.toList) env).1.findings,
          target f.expr = f.note := fun hs f hf => htarget hs f (List.mem_append_right _ hf)
    rcases List.mem_cons.1 hQ with rfl | hQ
    · obtain ⟨r, env', hr, hready, hwithin⟩ := exists_ready wf ready hstage [] _ rfl perform
        (fun _ hU => absurd hU List.not_mem_nil) htarget
      cases hr
      exact ⟨q, {}, env', .body hnode hq, hready, hwithin.append_right⟩
    · obtain rfl := Option.mem_toList.1 hQ
      obtain ⟨r, env', hr, hready, hwithin⟩ := exists_ready wf ready hstage [body] [] rfl perform
        (fun U hU => List.mem_cons.2 (.inl (List.mem_singleton.1 hU))) htarget
      have hr : ((some body.id).toList.forM (s.visitStmtWithin depth)).run q = .ok ((), r) := hr
      rw [forM_toList] at hr
      exact ⟨r, {}, env', .otherwise hnode hq hr, hready, hwithin.append_right⟩
  | whileLoop c body =>
    obtain rfl : Q = body := List.mem_singleton.1 hQ
    rw [Lexicon.walkInside_whileLoop] at htarget ⊢
    obtain ⟨q, hq, hstage⟩ := hstart.expr wf (hP.expr (List.mem_singleton.2 rfl)) rfl
      ready.prepared fun hs f hf => htarget hs f (List.mem_append_left _ hf)
    obtain ⟨r, env', hr, hready, hwithin⟩ := exists_ready wf ready hstage [] [] rfl perform
      (fun _ hU => absurd hU List.not_mem_nil)
      fun hs f hf => htarget hs f (List.mem_append_right _ hf)
    cases hr
    exact ⟨q, {}, env', .whileLoop hnode hq, hready, hwithin.append_right⟩
  | forIn pattern x body =>
    obtain rfl : Q = body := List.mem_singleton.1 hQ
    obtain ⟨q, q', o, env', ds, hq, hbind, hstage, hwalk⟩ :=
      loopHead_run wf hopens hP rfl ready.prepared htarget hstart
    have hwithin : (s.lexicon.walk opens Q (ds.foldl Scope.record {}) env').1.Within
        (s.lexicon.walkInside opens id (.forIn pattern x Q) env).1 := by
      rw [hwalk]
      exact (Outcome.Within.refl _).append_right
    exact ⟨_, _, env', .forIn hnode hq hbind, hstage.ready wf ready rfl ds
      fun hs f hf => htarget hs f (hwithin.findings hf), hwithin⟩
  | «variables» | expressions | returning | breaking | continuing => cases hQ

/-! ## The whole course -/

/-- The visit comes to the inner statements of a statement. -/
theorem Follows.exists_call {o : Outcome} (h : s.Follows opens target rank o c) {u : StmtId}
    (hu : s.arena.Child (.stmt c.stmt) (.stmt u)) :
    ∃ d, s.Calls c d ∧ d.stmt = u ∧ s.Follows opens target rank o d := by
  obtain ⟨depth, stmt, p⟩ := c
  obtain ⟨P, initial, env, hP, rfl, hdepth, ready, hwithin⟩ := h
  have hdepth : rank P.id < depth := hdepth
  obtain ⟨depth, rfl⟩ : ∃ d, depth = d + 1 := ⟨depth - 1, by omega⟩
  obtain ⟨Q, hQ, rfl⟩ : ∃ Q ∈ P.shape.stmtSlots, Q.id = u := by
    obtain ⟨cs, hcs, hmem⟩ := hu
    rw [hP.children_eq] at hcs
    cases hcs
    simpa using hmem
  obtain ⟨q, initial', env', hcall, hready, hwithin'⟩ :=
    Setting.exists_call wf hrank hopens hP hdepth ready hQ
  have hlt : rank Q.id < depth := by
    have := hrank _ _ (hP.child_stmt hQ)
    omega
  exact ⟨_, hcall, rfl, Q, initial', env', hP.stmt hQ, rfl, hlt, hready,
    hwithin'.trans hwithin⟩

theorem Follows.of_calls {o : Outcome} (h : s.Follows opens target rank o c)
    (hd : s.Calls c d) : s.Follows opens target rank o d := by
  obtain ⟨d', hd', hstmt, hfollows⟩ := h.exists_call wf hrank hopens hd.child
  rwa [hd.unique wf hd' hstmt.symm]

/-- Whatever the visit comes to is a part of the walk. -/
theorem Follows.of_comes {o : Outcome} (h : s.Follows opens target rank o c)
    (hd : Relation.ReflTransGen s.Calls c d) : s.Follows opens target rank o d := by
  induction hd with
  | refl => exact h
  | tail _ hcall ih => exact ih.of_calls wf hrank hopens hcall

/-- The visit comes to every statement below. -/
theorem Follows.exists_comes {o : Outcome} (h : s.Follows opens target rank o c) {t : StmtId}
    (ht : s.arena.Below (.stmt c.stmt) (.stmt t)) :
    ∃ d, Relation.ReflTransGen s.Calls c d ∧ d.stmt = t := by
  suffices ∀ n, s.arena.Below n (.stmt t) → ∀ c, s.Follows opens target rank o c →
      n = .stmt c.stmt → ∃ d, Relation.ReflTransGen s.Calls c d ∧ d.stmt = t from this _ ht c h rfl
  intro n hn
  induction hn using Relation.ReflTransGen.head_induction_on with
  | refl =>
    intro c _ hc
    exact ⟨c, .refl, (NodeId.stmt.inj hc).symm⟩
  | @head n m hchild hm ih =>
    rintro c hc rfl
    cases m with
    | expr e =>
      obtain ⟨x, hx⟩ := Arena.Below.of_expr hm
      cases hx
    | stmt u =>
      obtain ⟨d, hd, rfl, hfollows⟩ := hc.exists_call wf hrank hopens hchild
      obtain ⟨d', hd', hstmt⟩ := ih d hfollows rfl
      exact ⟨d', .head hd hd', hstmt⟩

end

end Setting
end ExprTyping
