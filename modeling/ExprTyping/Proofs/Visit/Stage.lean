import ExprTyping.Proofs.Visit.Expressions

/-!
# Inside a statement

A statement is visited part by part. `Stage` says how far the visit has come: which children have
been visited, what was found so far, and which environment the scopes now stand for. Each part
leads from one stage to the next:

* `Stage.expr`, `Stage.exprs`: expressions of the statement;
* `Stage.declare`, `Stage.report`: names and issues;
* `Stage.stmt`, `Stage.stmts`: inner statements.

`Ready` is what a statement's visit starts from and `Performs` what it does.
-/

namespace ExprTyping

/-! ## Where names are declared -/

namespace Arena

variable {a : Arena}

/-- The statements on which a visit inside `s` may write: `s` itself and the nearest one, from `s`
upward, in which names can be declared. -/
def WritesInside (a : Arena) (s t : StmtId) : Prop := t = s ∨ (a.owners (.stmt s)).head? = some t

/-- The statement above `s` on which a visit of `s` may write. -/
def WritesAbove (a : Arena) (s t : StmtId) : Prop := (a.ownersAbove (.stmt s)).head? = some t

namespace WellFormed

variable (wf : a.WellFormed)
include wf

theorem not_writesInside_of_below {s t : StmtId} {c : NodeId} (hc : a.Child (.stmt s) c)
    (ht : a.Below c (.stmt t)) : ¬ a.WritesInside s t := by
  rintro (rfl | h)
  · exact wf.not_below_of_child hc ht
  · have hmem := List.mem_of_mem_head? h
    rw [← wf.ownersAbove_of_parent ((wf.child_iff_parent _ c).1 hc)] at hmem
    exact wf.not_below_of_mem_ownersAbove hmem ht

theorem writesInside_of_writesAbove {s t : StmtId} {u : StmtId} (hc : a.Child (.stmt s) (.stmt u))
    (ht : a.WritesAbove u t) : a.WritesInside s t := by
  refine .inr ?_
  rwa [WritesAbove, wf.ownersAbove_of_parent ((wf.child_iff_parent _ _).1 hc)] at ht

/-- Declaring names in the nearest statement that can hold them is declaring them in the innermost
scope. -/
theorem frames_declare {s t : StmtId} (h : (a.owners (.stmt s)).head? = some t) (p : Progress)
    (ds : List Definition) :
    a.frames (p.declare t ds).notes (.stmt s) = (a.frames p.notes (.stmt s)).declare ds := by
  have hframe : ∀ rest : List StmtId, t ∉ rest →
      rest.map (p.declare t ds).notes.scope = rest.map p.notes.scope := by
    intro rest ht
    apply List.map_congr_left
    intro x hx
    show (p.notes.recordAll t ds).scope x = _
    rw [Notes.scope_recordAll, if_neg fun htx : t = x => ht (htx ▸ hx)]
  obtain ⟨rest, howners⟩ := List.head?_eq_some_iff.1 h
  have hnot : t ∉ rest := by
    have hnodup := wf.nodup_owners (.stmt s)
    rw [howners] at hnodup
    exact (List.nodup_cons.1 hnodup).1
  rw [frames, frames, howners, List.map_cons, List.map_cons, hframe rest hnot]
  show (p.notes.recordAll t ds).scope t :: _ = _
  rw [Notes.scope_recordAll, if_pos rfl]
  rfl

end WellFormed
end Arena

/-! ## Before, inside and after -/

section

variable (s : Setting) (opens : Program → Bool) (target : ExprId → ExprNote)

/-- What the visit of a statement starts from: the scopes around it stand for the environment, its
own scope holds the initial names, nothing is declared below it, and a visit that skips typed
expressions finds them as the walk would leave them. -/
structure Ready (P : Program) (initial : Scope) (env : Env) (p : Progress) : Prop where
  frames : s.arena.framesAbove p.notes (.stmt P.id) = env
  own : s.arena.owns P.id = true → p.notes.scope P.id = initial
  clean : ∀ t, s.arena.Below (.stmt P.id) (.stmt t) → t ≠ P.id → p.notes.scope t = {}
  prepared : Prepared s target p (.stmt P.id)
  target_eq : s.skipsResolved = true →
    ∀ f ∈ (s.lexicon.walk opens P initial env).1.findings, target f.expr = f.note

/-- How far the visit of what is inside `P` has come since `p`: the children in `done` have been
visited, those in `rest` have not, `o` was found, and the scopes stand for the environment. -/
structure Stage (P : Program) (p : Progress) (done rest : List NodeId) (q : Progress)
    (o : Outcome) (env : Env) : Prop where
  children : s.arena.children (.stmt P.id) = .ok (done ++ rest)
  effect : Effect s done (s.arena.WritesInside P.id) p q o
  frames : s.arena.frames q.notes (.stmt P.id) = env

/-- What the visit of a statement does: it leaves what the walk finds. -/
def Performs (depth : ℕ) (P : Program) (initial : Scope) (env : Env) (p : Progress) : Prop :=
  ∃ q, (s.visitStmtWithin depth P.id).run p = .ok ((), q) ∧
    Effect s [.stmt P.id] (s.arena.WritesAbove P.id) p q
      (s.lexicon.walk opens P initial env).1 ∧
    s.arena.framesAbove q.notes (.stmt P.id) = (s.lexicon.walk opens P initial env).2

end

namespace Stage

variable {s : Setting} {opens : Program → Bool} {target : ExprId → ExprNote} {P Q : Program}
  {T : Term Mark} {initial : Scope} {p q : Progress} {done rest : List NodeId} {o : Outcome}
  {env : Env}

/-- The environment inside a statement. -/
theorem start (hopens : opens P = s.arena.owns P.id)
    (ready : Ready s opens target P initial env p) {cs : List NodeId}
    (hcs : s.arena.children (.stmt P.id) = .ok cs) :
    Stage s P p [] cs p {} (if opens P then initial :: env else env) where
  children := hcs
  effect := Effect.refl s _ p
  frames := by
    rw [Arena.frames, hopens]
    split_ifs with h
    · rw [Arena.owners_of_owns h, List.map_cons, ready.own h, ← ready.frames]
      rfl
    · rw [Arena.owners_of_not_owns (by simpa using h), ← ready.frames]
      rfl

section

variable (wf : s.arena.WellFormed) (h : Stage s P p done rest q o env)
include wf h

/-- The visit goes on with a part below some of the remaining children. -/
theorem andThen {R rest' : List NodeId} {r : Progress} {o' : Outcome} {env' : Env}
    (hrest : rest = R ++ rest') (heffect : Effect s R (s.arena.WritesInside P.id) q r o')
    (hframes : s.arena.frames r.notes (.stmt P.id) = env') :
    Stage s P p (done ++ R) rest' r (o ++ o') env' where
  children := by rw [h.children, hrest, List.append_assoc]
  effect := by
    refine h.effect.andThen heffect (fun n hn hR => ?_) fun t ht => ?_
    · refine wf.disjoint_of_append h.children hn ?_
      rw [hrest, Arena.covers_append]
      exact .inl hR
    · obtain ⟨c, hc, hct⟩ := ht
      exact wf.not_writesInside_of_below ⟨_, h.children, List.mem_append_left _ hc⟩ hct
  frames := hframes

theorem report (issue : Option Issue) :
    Stage s P p done rest (q.report (.stmt P.id) issue)
      (o ++ { diagnostics := issue.toList.map (⟨·, .stmt P.id⟩) }) env := by
  have := h.andThen wf (R := []) rfl (.report q P.id issue) h.frames
  rwa [List.append_nil] at this

/-- Declaring names in the nearest statement that can hold them. -/
theorem declare {t : StmtId} (ht : (s.arena.owners (.stmt P.id)).head? = some t)
    (ds : List Definition) :
    Stage s P p done rest (q.declare t ds) o (env.declare ds) := by
  have := h.andThen wf (R := []) rfl (.declare (.inr ht) q ds)
    ((wf.frames_declare ht q ds).trans (by rw [h.frames]))
  rwa [List.append_nil, Outcome.append_empty] at this

/-- Names declared in a statement in which nothing can be declared are not seen. -/
theorem declare_unseen (howns : s.arena.owns P.id = false) (ds : List Definition) :
    Stage s P p done rest (q.declare P.id ds) o env := by
  have hframes : s.arena.frames (q.declare P.id ds).notes (.stmt P.id) = env := by
    rw [← h.frames]
    apply List.map_congr_left
    intro t ht
    show (q.notes.recordAll P.id ds).scope t = _
    rw [Notes.scope_recordAll, if_neg]
    rintro rfl
    rw [Arena.owners_of_not_owns howns] at ht
    exact wf.not_below_of_mem_ownersAbove ht (.refl _)
  have := h.andThen wf (R := []) rfl (.declare (.inl rfl) q ds) hframes
  rwa [List.append_nil, Outcome.append_empty] at this

/-- A loop's names stand in the body's scope, if it has one, and otherwise in the loop's. -/
theorem bind (hP : opens P = s.arena.owns P.id) (hQ : opens Q = s.arena.owns Q.id)
    (bound : List Definition) :
    ∃ q' env' ds,
      q.declare (s.arena.binder P.id Q.id) bound = q'.declare Q.id ds ∧
      Stage s P p done rest q' o env' ∧
      s.lexicon.walk opens Q (ds.foldl Scope.record {}) env' =
        (if opens Q then s.lexicon.walk opens Q (bound.foldl Scope.record {})
          else if opens P then (Walk.declare bound).andThen (s.lexicon.walk opens Q {})
          else s.lexicon.walk opens Q {}) env := by
  rw [hP, hQ, Arena.binder]
  cases howns : s.arena.owns Q.id with
  | true => exact ⟨q, env, bound, rfl, h, rfl⟩
  | false =>
    cases hown : s.arena.owns P.id with
    | true =>
      refine ⟨q.declare P.id bound, env.declare bound, [], rfl, h.declare wf ?_ bound, rfl⟩
      rw [Arena.owners_of_owns hown]
      rfl
    | false => exact ⟨q.declare P.id bound, env, [], rfl, h.declare_unseen wf hown bound, rfl⟩

/-- What is below the remaining children is as it was. -/
theorem expr_eq {c : NodeId} {e : ExprId} (hc : c ∈ rest) (he : s.arena.Below c (.expr e)) :
    q.notes.expr e = p.notes.expr e :=
  h.effect.expr_frame e fun hdone => wf.disjoint_of_append h.children hdone ⟨c, hc, he⟩

theorem scope_eq {c : NodeId} {t : StmtId} (hc : c ∈ rest) (ht : s.arena.Below c (.stmt t)) :
    q.notes.scope t = p.notes.scope t :=
  h.effect.scope_frame t (fun hdone => wf.disjoint_of_append h.children hdone ⟨c, hc, ht⟩)
    (wf.not_writesInside_of_below ⟨_, h.children, List.mem_append_right _ hc⟩ ht)

/-- The visit goes on with an expression. -/
theorem expr (hT : s.arena.HoldsTerm T) (hrest : rest = .expr T.id :: rest')
    (hprep : Prepared s target p (.stmt P.id))
    (htarget : s.skipsResolved = true →
      ∀ f ∈ (s.lexicon.evaluate [T] env).1.findings, target f.expr = f.note) :
    ∃ r, (s.visitExpr T.id).run q = .ok ((s.lexicon.judge env T).label.type, r) ∧
      Stage s P p (done ++ [.expr T.id]) rest' r (o ++ (s.lexicon.evaluate [T] env).1) env := by
  have hmem : .expr T.id ∈ rest := hrest ▸ List.mem_cons_self
  have hchild : s.arena.Child (.stmt P.id) (.expr T.id) :=
    ⟨_, h.children, List.mem_append_right _ hmem⟩
  have hframes : s.arena.framesAbove q.notes (.expr T.id) = env :=
    (wf.framesAbove_child hchild).trans h.frames
  have hprep_T : Prepared s target q (.expr T.id) :=
    (hprep.below (.of_child hchild (.refl _))).congr fun e he => h.expr_eq wf hmem he
  obtain ⟨r, hr, heffect⟩ := Setting.visitExpr_run wf hT hframes hprep_T htarget
  refine ⟨r, hr, h.andThen wf hrest (heffect.mono (fun _ hn => hn) fun _ => False.elim) ?_⟩
  rw [← h.frames]
  exact List.map_congr_left fun t _ => heffect.scope_frame t (fun hc => by
    obtain ⟨x, hx⟩ := (Arena.covers_singleton.1 hc).of_expr
    cases hx) id

/-- The visit goes on with several expressions. -/
theorem exprs {Ts : List (Term Mark)} (hTs : ∀ T ∈ Ts, s.arena.HoldsTerm T)
    (hrest : rest = (Ts.map fun T => .expr T.id) ++ rest')
    (hprep : Prepared s target p (.stmt P.id))
    (htarget : s.skipsResolved = true →
      ∀ f ∈ (s.lexicon.evaluate Ts env).1.findings, target f.expr = f.note) :
    ∃ r, ((Ts.map (·.id)).forM fun x => discard (s.visitExpr x)).run q = .ok ((), r) ∧
      Stage s P p (done ++ Ts.map fun T => .expr T.id) rest' r
        (o ++ (s.lexicon.evaluate Ts env).1) env := by
  induction Ts generalizing done rest q o with
  | nil =>
    obtain rfl : rest = rest' := hrest
    refine ⟨q, rfl, ?_⟩
    rw [List.map_nil, List.append_nil]
    show Stage s P p done rest q (o ++ {}) env
    rw [Outcome.append_empty]
    exact h
  | cons T Ts ih =>
    rw [Lexicon.evaluate_cons] at htarget ⊢
    obtain ⟨r, hr, hstage⟩ := h.expr wf (hTs T List.mem_cons_self) hrest hprep
      fun hs f hf => htarget hs f (List.mem_append_left _ hf)
    obtain ⟨t, ht, hstage⟩ := ih hstage (fun U hU => hTs U (List.mem_cons_of_mem _ hU)) rfl
      fun hs f hf => htarget hs f (List.mem_append_right _ hf)
    refine ⟨t, ?_, ?_⟩
    · show ((s.visitExpr T.id >>= fun _ => pure ()) >>= fun _ => _ : Visit Unit).run q = _
      rw [bind_assoc, run_bind_of_run hr]
      exact ht
    · rw [List.map_cons, ← Outcome.append_assoc, List.append_cons]
      exact hstage

/-- Only expressions remain to be visited. -/
theorem exprs_only {Ts : List (Term Mark)} (hTs : ∀ T ∈ Ts, s.arena.HoldsTerm T)
    (hdone : done = []) (hrest : rest = (Ts.map fun T => .expr T.id) ++ [])
    (hprep : Prepared s target p (.stmt P.id))
    (htarget : s.skipsResolved = true →
      ∀ f ∈ (s.lexicon.evaluate Ts env).1.findings, target f.expr = f.note) :
    ∃ r, ((Ts.map (·.id)).forM fun x => discard (s.visitExpr x)).run q = .ok ((), r) ∧
      Stage s P p rest [] r (o ++ (s.lexicon.evaluate Ts env).1) env := by
  obtain ⟨r, hr, hstage⟩ := h.exprs wf hTs hrest hprep htarget
  rw [hdone, List.nil_append] at hstage
  rw [hrest, List.append_nil]
  exact ⟨r, hr, hstage⟩

/-- Before an inner statement is visited, the names it starts with may be declared in it. -/
theorem ready (hready : Ready s opens target P initial env₀ p)
    (hrest : rest = .stmt Q.id :: rest') (ds : List Definition)
    (htarget : s.skipsResolved = true →
      ∀ f ∈ (s.lexicon.walk opens Q (ds.foldl Scope.record {}) env).1.findings,
        target f.expr = f.note) :
    Ready s opens target Q (ds.foldl Scope.record {}) env (q.declare Q.id ds) := by
  have hmem : .stmt Q.id ∈ rest := hrest ▸ List.mem_cons_self
  have hchild : s.arena.Child (.stmt P.id) (.stmt Q.id) :=
    ⟨_, h.children, List.mem_append_right _ hmem⟩
  have hscope : ∀ t, (q.declare Q.id ds).notes.scope t =
      if Q.id = t then ds.foldl Scope.record (q.notes.scope Q.id) else q.notes.scope t :=
    fun t => Notes.scope_recordAll q.notes Q.id t ds
  have hempty : ∀ t, s.arena.Below (.stmt Q.id) (.stmt t) → q.notes.scope t = {} := by
    intro t ht
    rw [h.scope_eq wf hmem ht]
    apply hready.clean t (.of_child hchild ht)
    intro htP
    exact wf.not_below_of_child hchild (htP ▸ ht)
  exact {
    frames := by
      rw [← h.frames, ← wf.framesAbove_child hchild]
      apply List.map_congr_left
      intro t ht
      rw [hscope, if_neg]
      rintro rfl
      exact wf.not_below_of_mem_ownersAbove ht (.refl _)
    own := fun _ => by rw [hscope, if_pos rfl, hempty _ (.refl _)]
    clean := fun t ht hne => by rw [hscope, if_neg (Ne.symm hne), hempty t ht]
    prepared := (hready.prepared.below (.of_child hchild (.refl _))).congr fun e he =>
      (Notes.expr_recordAll ..).trans (h.expr_eq wf hmem he)
    target_eq := htarget }

/-- The visit goes on with an inner statement. -/
theorem stmt (hrest : rest = .stmt Q.id :: rest') (ds : List Definition) {depth : ℕ}
    (hQ : Performs s opens depth Q (ds.foldl Scope.record {}) env (q.declare Q.id ds)) :
    ∃ r, (s.visitStmtWithin depth Q.id).run (q.declare Q.id ds) = .ok ((), r) ∧
      Stage s P p (done ++ [.stmt Q.id]) rest' r
        (o ++ (s.lexicon.walk opens Q (ds.foldl Scope.record {}) env).1)
        (s.lexicon.walk opens Q (ds.foldl Scope.record {}) env).2 := by
  have hchild : s.arena.Child (.stmt P.id) (.stmt Q.id) :=
    ⟨_, h.children, List.mem_append_right _ (hrest ▸ List.mem_cons_self)⟩
  obtain ⟨r, hr, heffect, hframes⟩ := hQ
  refine ⟨r, hr, h.andThen wf hrest (.of_declare ?_ (heffect.mono (fun _ hn => hn) ?_)) ?_⟩
  · exact Arena.covers_singleton.2 (.refl _)
  · exact fun t ht => .inr (wf.writesInside_of_writesAbove hchild ht)
  · rw [← hframes, wf.framesAbove_child hchild]

/-- The visit goes on with several inner statements. -/
theorem stmts (hready : Ready s opens target P initial env₀ p) {Qs : List Program} {depth : ℕ}
    (hrest : rest = (Qs.map fun Q => .stmt Q.id) ++ rest')
    (hQs : ∀ Q ∈ Qs, ∀ initial env p, Ready s opens target Q initial env p →
      Performs s opens depth Q initial env p)
    (htarget : s.skipsResolved = true →
      ∀ f ∈ (s.lexicon.walkAll opens Qs env).1.findings, target f.expr = f.note) :
    ∃ r, ((Qs.map (·.id)).forM (s.visitStmtWithin depth)).run q = .ok ((), r) ∧
      Stage s P p (done ++ Qs.map fun Q => .stmt Q.id) rest' r
        (o ++ (s.lexicon.walkAll opens Qs env).1) (s.lexicon.walkAll opens Qs env).2 := by
  induction Qs generalizing done rest q o env with
  | nil =>
    obtain rfl : rest = rest' := hrest
    refine ⟨q, rfl, ?_⟩
    rw [List.map_nil, List.append_nil, Lexicon.walkAll]
    show Stage s P p done rest q (o ++ {}) env
    rw [Outcome.append_empty]
    exact h
  | cons Q Qs ih =>
    rw [Lexicon.walkAll] at htarget ⊢
    have hQ := hQs Q List.mem_cons_self {} env q (h.ready wf hready hrest []
      fun hs f hf => htarget hs f (List.mem_append_left _ hf))
    obtain ⟨r, hr, hstage⟩ := h.stmt wf hrest [] hQ
    obtain ⟨t, ht, hstage⟩ := ih hstage rfl
      (fun U hU => hQs U (List.mem_cons_of_mem _ hU))
      fun hs f hf => htarget hs f (List.mem_append_right _ hf)
    refine ⟨t, ?_, ?_⟩
    · have hr : (s.visitStmtWithin depth Q.id).run q = .ok ((), r) := hr
      show (s.visitStmtWithin depth Q.id >>= fun _ => _).run q = _
      rw [run_bind_of_run hr]
      exact ht
    · rw [List.map_cons, List.append_cons]
      show Stage s P p _ rest' t (o ++ (_ ++ _)) _
      rw [← Outcome.append_assoc]
      exact hstage

end

/-- Once everything inside has been visited, the visit has done what the walk does. -/
theorem finish (hopens : opens P = s.arena.owns P.id)
    (h : Stage s P p done [] q
      (s.lexicon.walkInside opens P.id P.shape (if opens P then initial :: env else env)).1
      (s.lexicon.walkInside opens P.id P.shape (if opens P then initial :: env else env)).2) :
    Effect s [.stmt P.id] (s.arena.WritesAbove P.id) p q
        (s.lexicon.walk opens P initial env).1 ∧
      s.arena.framesAbove q.notes (.stmt P.id) = (s.lexicon.walk opens P initial env).2 := by
  have hbelow : ∀ n, s.arena.Covers done n → s.arena.Covers [.stmt P.id] n := by
    intro n hn
    rw [Arena.covers_singleton]
    exact Arena.covers_of_children (h.children.trans (by rw [List.append_nil])) hn
  have hself : s.arena.Covers [.stmt P.id] (.stmt P.id) := Arena.covers_singleton.2 (.refl _)
  have hframes := h.frames
  rw [Lexicon.walk_eq]
  cases howns : s.arena.owns P.id with
  | true =>
    have hP : opens P = true := hopens.trans howns
    simp only [hP, if_true] at h hframes ⊢
    rw [Arena.frames, Arena.owners_of_owns howns, List.map_cons] at hframes
    refine ⟨.leave (h.effect.mono hbelow fun t ht => ?_) ?_ hself, ?_⟩
    · rcases ht with rfl | ht
      · exact .inl hself
      · rw [Arena.owners_of_owns howns] at ht
        cases ht
        exact .inl hself
    · rw [← hframes]
      rfl
    · show _ = List.tail _
      rw [← hframes]
      rfl
  | false =>
    have hP : opens P = false := hopens.trans howns
    simp only [hP] at h hframes ⊢
    rw [Arena.frames, Arena.owners_of_not_owns howns] at hframes
    refine ⟨h.effect.mono hbelow fun t ht => ?_, hframes⟩
    rcases ht with rfl | ht
    · exact .inl hself
    · rw [Arena.owners_of_not_owns howns] at ht
      exact .inr ht

end Stage
end ExprTyping
