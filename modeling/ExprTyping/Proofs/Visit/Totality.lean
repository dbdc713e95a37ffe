import ExprTyping.Proofs.Syntax.Replacement
import ExprTyping.Proofs.Visit.Footprint
import ExprTyping.Typing.Resolver

/-!
# Visits succeed and stay in their footprint

In a well-formed arena a visit never fails, whether it skips typed expressions or not and whatever
notes it starts from: it goes down, where every handle names a node, and no path down is longer than
the bound on it. So a resolver gives a result for every node (`Resolver.exists_resolveTypes`,
`Resolver.exists_resolveType`).

On its way the visit of a node changes only what is below the node, and of the scope around it only
the variables declared there (`Setting.succeeds_visitExpr`, `Setting.succeeds_visitStmt`).

`Visit.Succeeds` follows a visit step by step; what is known about a result is handed on to the
step after it, and the definitions that the steps let out of the region add up.
-/

namespace ExprTyping

/-! ## Steps that succeed -/

namespace Visit

variable {α β : Type} {F : Footprint} {ds ds' : List Definition} {P : α → Prop} {Q : β → Prop}

/-- From wherever it starts, the visit succeeds with a result that satisfies `P`, stays in the
footprint and declares `ds` outside the region. -/
def Succeeds (F : Footprint) (ds : List Definition) (x : Visit α)
    (P : α → Prop := fun _ => True) : Prop :=
  ∀ p, ∃ r q, x.run p = .ok (r, q) ∧ F.Changes ds p q ∧ P r

namespace Succeeds

theorem pure {r : α} (h : P r) : Succeeds F [] (pure r) P := fun p => ⟨r, p, rfl, .refl F p, h⟩

theorem read {x : Except Fault α} {r : α} (h : x = .ok r) : Succeeds F [] (liftM x) (r = ·) := by
  subst h
  exact fun p => ⟨r, p, rfl, .refl F p, rfl⟩

theorem get : Succeeds F [] get := fun p => ⟨p, p, rfl, .refl F p, trivial⟩

theorem modify {f : Progress → Progress} (h : ∀ p, F.Changes ds p (f p)) :
    Succeeds F ds (modify f) :=
  fun p => ⟨(), f p, rfl, h p, trivial⟩

/-- One step after another. -/
theorem andThen {x : Visit α} {f : α → Visit β} (hx : Succeeds F ds x P)
    (hf : ∀ r, P r → Succeeds F ds' (f r) Q) : Succeeds F (ds ++ ds') (x >>= f) Q := by
  intro p
  obtain ⟨r, q, hrun, hq, hr⟩ := hx p
  obtain ⟨r', q', hrun', hq', hr'⟩ := hf r hr q
  exact ⟨r', q', by rw [StateT.run_bind, hrun]; exact hrun', hq.trans hq', hr'⟩

/-- One step after another that declares nothing outside. -/
theorem bind {x : Visit α} {f : α → Visit β} (hx : Succeeds F [] x P)
    (hf : ∀ r, P r → Succeeds F ds (f r) Q) : Succeeds F ds (x >>= f) Q :=
  hx.andThen hf

theorem discard {x : Visit α} (h : Succeeds F ds x) : Succeeds F ds (Functor.discard x) :=
  fun p => by
    obtain ⟨r, q, hrun, hq, -⟩ := h p
    refine ⟨(), q, ?_, hq, trivial⟩
    rw [Functor.discard, Functor.mapConst]
    exact congrArg (· >>= _) hrun

theorem mapM {visit : α → Visit β} {xs : List α} (h : ∀ x ∈ xs, Succeeds F [] (visit x) Q) :
    Succeeds F [] (xs.mapM visit) fun ys => ∀ y ∈ ys, Q y := by
  induction xs with
  | nil => exact pure fun y hy => absurd hy List.not_mem_nil
  | cons x rest ih =>
    rw [List.mapM_cons]
    refine (h x List.mem_cons_self).bind fun y hy => ?_
    refine (ih fun z hz => h z (List.mem_cons_of_mem x hz)).bind fun ys hys => ?_
    exact pure (List.forall_mem_cons.2 ⟨hy, hys⟩)

theorem forM {visit : α → Visit Unit} {declared : α → List Definition} {xs : List α}
    (h : ∀ x ∈ xs, Succeeds F (declared x) (visit x)) :
    Succeeds F (xs.flatMap declared) (xs.forM visit) := by
  induction xs with
  | nil => exact pure trivial
  | cons x rest ih =>
    rw [List.flatMap_cons]
    refine (h x List.mem_cons_self).andThen fun _ _ => ?_
    exact ih fun z hz => h z (List.mem_cons_of_mem x hz)

theorem forM_quiet {visit : α → Visit Unit} {xs : List α}
    (h : ∀ x ∈ xs, Succeeds F [] (visit x)) : Succeeds F [] (xs.forM visit) := by
  have hsum : xs.flatMap (fun _ => ([] : List Definition)) = [] :=
    List.flatMap_eq_nil_iff.2 fun _ _ => rfl
  exact hsum ▸ forM h

theorem forM_option {visit : α → Visit Unit} {declared : α → List Definition} {o : Option α}
    (h : ∀ x ∈ o, Succeeds F (declared x) (visit x)) :
    Succeeds F (o.toList.flatMap declared) (o.forM visit) := by
  cases o with
  | none => exact pure trivial
  | some x => simpa using h x rfl

theorem forM_option_quiet {visit : α → Visit Unit} {o : Option α}
    (h : ∀ x ∈ o, Succeeds F [] (visit x)) : Succeeds F [] (o.forM visit) := by
  cases o with
  | none => exact pure trivial
  | some x => exact h x rfl

/-- A layer can be visited if its slots can. -/
theorem mapM_expr {visit : α → Visit β} {k : Expr α}
    (h : ∀ x ∈ k.slots, Succeeds F [] (visit x) Q) :
    Succeeds F [] (k.mapM visit) fun k' => ∀ y ∈ k'.slots, Q y := by
  intro p
  obtain ⟨ys, q, hrun, hq, hys⟩ := mapM h p
  rw [← k.slots_mapM visit, StateT.run_map] at hrun
  cases hk : (k.mapM visit).run p with
  | error fault => rw [hk] at hrun; cases hrun
  | ok result =>
    rw [hk] at hrun
    cases hrun
    exact ⟨_, _, rfl, hq, hys⟩

/-- What is let out of a child is let out of its parent. -/
theorem of_child {a : Arena} (wf : a.WellFormed) {n c : NodeId} (hc : a.Child n c)
    (keeps : a.owner? c ≠ none → ds = []) {x : Visit α} (h : Succeeds (a.footprint c) ds x P) :
    Succeeds (a.footprint n) ds x P := by
  intro p
  obtain ⟨r, q, hrun, hq, hr⟩ := h p
  exact ⟨r, q, hrun, hq.of_child wf hc keeps, hr⟩

/-- A statement in which names can be declared lets out nothing of what it and its parts declare. -/
theorem keeping {a : Arena} (wf : a.WellFormed) {s : StmtId} {node : StmtNode}
    (hs : a.stmt s = .ok node) {x : Visit α}
    (h : Succeeds (a.footprint (.stmt s))
      (node.kind.declared ++ node.kind.stmtSlots.flatMap a.declaredAround) x P) :
    Succeeds (a.footprint (.stmt s)) (a.declaredAround s) x P := by
  rw [wf.declaredAround_eq hs]
  split_ifs with howns
  · intro p
    obtain ⟨r, q, hrun, hq, hr⟩ := h p
    refine ⟨r, q, hrun, hq.of_owner_mem (fun t ht => ?_) [], hr⟩
    rw [Arena.footprint, Arena.owners_of_owns howns] at ht
    obtain rfl : s = t := Option.some.inj ht
    exact .refl _
  · exact h

end Succeeds
end Visit

namespace Setting

open Visit

variable {s : Setting} (wf : s.arena.WellFormed)

/-! ## Verdicts -/

section

variable (notes : Notes) {e : ExprId} (he : s.arena.contains (.expr e))
include wf he

theorem exists_binding? (name : String) : ∃ b, s.binding? notes e name = .ok b := by
  have hdefinition : ∃ d, Tree.definitionNamed? ⟨s.arena, notes⟩ (.expr e) name = .ok d :=
    ⟨_, wf.firstUpward_owners (fun t => (notes.scope t).find? name) he⟩
  obtain ⟨d, hd⟩ := hdefinition
  rw [binding?]
  split
  · exact ⟨_, rfl⟩
  · rw [hd]
    cases d with
    | some d => exact ⟨_, rfl⟩
    | none =>
      cases s.intrinsics.implicitMember? name with
      | some b => exact ⟨_, rfl⟩
      | none => exact ⟨_, rfl⟩

theorem exists_judgeName (name : String) : ∃ v, s.judgeName notes e name = .ok v := by
  obtain ⟨b, hb⟩ := exists_binding? wf notes he name
  rw [judgeName, hb]
  cases b <;> exact ⟨_, rfl⟩

theorem exists_judgeMember (receiver : Operand) (name : String) :
    ∃ v, s.judgeMember e receiver name = .ok v := by
  obtain ⟨b, hb⟩ := wf.exists_isCallee he
  rw [judgeMember, hb]
  split_ifs
  · exact ⟨_, rfl⟩
  · exact ⟨_, rfl⟩
  · cases receiver.type <;> exact ⟨_, rfl⟩

theorem exists_closeChain (v : Verdict) : ∃ v', s.closeChain e v = .ok v' := by
  obtain ⟨b, hb⟩ := wf.exists_closesChain he
  rw [closeChain, hb]
  cases v.type with
  | none => exact ⟨_, rfl⟩
  | some type =>
    dsimp only
    split_ifs
    · exact ⟨_, rfl⟩
    · cases b <;> exact ⟨_, rfl⟩

omit he in
theorem exists_judgeCall {callee : Operand} (hcallee : s.arena.contains (.expr callee.expr))
    (arguments : List (Argument Operand)) :
    ∃ v, s.judgeCall notes callee arguments = .ok v := by
  obtain ⟨node, hnode⟩ := Arena.exists_expr hcallee
  rw [judgeCall, hnode]
  split_ifs
  · exact ⟨_, rfl⟩
  · cases hk : node.kind with
    | member receiver name =>
      have hchild : s.arena.Child (.expr callee.expr) (.expr receiver) :=
        (Arena.child_expr_iff hnode).2 ⟨receiver, by rw [hk]; exact List.mem_singleton.2 rfl, rfl⟩
      obtain ⟨node', hnode'⟩ := Arena.exists_expr (wf.contains_child _ _ hchild)
      simp only [bind, Except.bind, hk, hnode']
      exact ⟨_, rfl⟩
    | _ =>
      simp only [bind, Except.bind, hk]
      exact ⟨_, rfl⟩

/-- There is a verdict on every expression whose operands are in the arena. -/
theorem exists_judge {operands : Expr Operand}
    (h : ∀ x ∈ operands.slots, s.arena.contains (.expr x.expr)) :
    ∃ v, s.judge notes e operands = .ok v := by
  have hclose : ∀ x : Except Fault Verdict, (∃ v, x = .ok v) →
      ∃ v, (x >>= s.closeChain e) = .ok v := by
    rintro _ ⟨v, rfl⟩
    exact exists_closeChain wf he v
  cases operands with
  | identifier name => exact exists_judgeName wf notes he name
  | member receiver name => exact hclose _ (exists_judgeMember wf he receiver name)
  | subscript | chain => exact exists_closeChain wf he _
  | call callee arguments =>
    exact hclose _ (exists_judgeCall wf notes (h callee List.mem_cons_self) arguments)
  | _ => exact ⟨_, rfl⟩

end

/-! ## Visits -/

include wf

theorem succeeds_visitExprWithin {rank : ExprId → ℕ}
    (hrank : ∀ e x, s.arena.Child (.expr e) (.expr x) → rank x < rank e) {depth : ℕ} {e : ExprId}
    (hdepth : rank e < depth) (he : s.arena.contains (.expr e)) :
    Succeeds (s.arena.footprint (.expr e)) [] (s.visitExprWithin depth e) := by
  induction depth generalizing e with
  | zero => omega
  | succ depth ih =>
    obtain ⟨node, hnode⟩ := Arena.exists_expr he
    have hchild : ∀ x ∈ node.kind.slots, s.arena.Child (.expr e) (.expr x) :=
      fun x hx => (Arena.child_expr_iff hnode).2 ⟨x, hx, rfl⟩
    have hslot : ∀ x ∈ node.kind.slots, s.arena.contains (.expr x) ∧ rank x < depth := by
      intro x hx
      have hlt := hrank e x (hchild x hx)
      exact ⟨wf.contains_child _ _ (hchild x hx), by omega⟩
    rw [visitExprWithin, hnode]
    refine (Succeeds.read rfl).bind ?_
    rintro _ rfl
    refine Succeeds.get.bind fun p _ => ?_
    split
    · exact .pure trivial
    · refine (Succeeds.mapM_expr (Q := fun o => s.arena.contains (.expr o.expr))
        fun x hx => ?_).bind fun operands hoperands => ?_
      · have hvisit := (ih (hslot x hx).2 (hslot x hx).1).of_child wf (hchild x hx) fun _ => rfl
        exact hvisit.bind fun _ _ => .pure (hslot x hx).1
      · refine Succeeds.get.bind fun q _ => ?_
        obtain ⟨v, hv⟩ := exists_judge wf q.notes he hoperands
        refine (Succeeds.read hv).bind fun v _ => ?_
        refine (Succeeds.modify fun p => .conclude (Arena.Below.refl _) (fun x hx => ?_) p v).bind
          fun _ _ => .pure trivial
        exact .of_child (hchild x (Expr.mem_slots_of_callee? hx)) (.refl _)

theorem succeeds_visitExpr {e : ExprId} (he : s.arena.contains (.expr e)) :
    Succeeds (s.arena.footprint (.expr e)) [] (s.visitExpr e) := by
  obtain ⟨rank, hle, hrank⟩ := wf.exists_exprRank
  exact succeeds_visitExprWithin wf hrank (Nat.lt_succ_of_le (hle e)) he

/-- The variable of a loop is declared in the body or in the loop. -/
theorem succeeds_bindLoop {loop body : StmtId} (hbody : s.arena.Child (.stmt loop) (.stmt body))
    (element : Ty) (pattern : Pattern) :
    Succeeds (s.arena.footprint (.stmt loop)) [] (s.bindLoop loop body element pattern) := by
  obtain ⟨node, hnode⟩ := Arena.exists_stmt (wf.contains_child _ _ hbody)
  cases pattern with
  | identifier name =>
    refine (Succeeds.read hnode).bind fun _ _ => .modify fun p => .declare_inside ?_ p _
    split_ifs
    · exact .of_child hbody (.refl _)
    · exact .refl _
  | wildcard => exact .pure trivial
  | tuple items => exact .modify fun p => .report p _ _

theorem succeeds_declareVariables {stmt : StmtId} (hs : s.arena.contains (.stmt stmt))
    (declarations : List (VariableDeclaration ExprId)) :
    Succeeds (s.arena.footprint (.stmt stmt)) (declarations.map fun d => ⟨d.name, d.type⟩)
      (s.declareVariables stmt declarations) := by
  refine (Succeeds.read (wf.nearestScope_eq hs)).bind ?_
  rintro _ rfl
  cases howner : (s.arena.owners (.stmt stmt)).head? with
  | some owner => exact .modify fun p => .declare_owner howner p _
  | none =>
    refine fun p => ⟨(), p, rfl, ?_, trivial⟩
    exact (Footprint.Changes.refl _ p).of_owner_mem (fun t ht => by simp_all [Arena.footprint]) _

theorem succeeds_visitStmtWithin {rank : StmtId → ℕ}
    (hrank : ∀ t u, s.arena.Child (.stmt t) (.stmt u) → rank u < rank t) {depth : ℕ} {t : StmtId}
    (hdepth : rank t < depth) (ht : s.arena.contains (.stmt t)) :
    Succeeds (s.arena.footprint (.stmt t)) (s.arena.declaredAround t)
      (s.visitStmtWithin depth t) := by
  induction depth generalizing t with
  | zero => omega
  | succ depth ih =>
    obtain ⟨node, hnode⟩ := Arena.exists_stmt ht
    have child : ∀ u ∈ node.kind.stmtSlots, s.arena.Child (.stmt t) (.stmt u) :=
      fun u hu => (Arena.child_stmt_iff hnode).2 (.inr ⟨u, hu, rfl⟩)
    have expr : ∀ x ∈ node.kind.exprSlots,
        Succeeds (s.arena.footprint (.stmt t)) [] (s.visitExpr x) := by
      intro x hx
      have hchild := (Arena.child_stmt_iff hnode).2 (.inl ⟨x, hx, rfl⟩)
      exact (succeeds_visitExpr wf (wf.contains_child _ _ hchild)).of_child wf hchild fun _ => rfl
    have stmt : ∀ u ∈ node.kind.stmtSlots, Succeeds (s.arena.footprint (.stmt t))
        (s.arena.declaredAround u) (s.visitStmtWithin depth u) := by
      intro u hu
      have hlt := hrank t u (child u hu)
      exact (ih (by omega) (wf.contains_child _ _ (child u hu))).of_child wf (child u hu)
        Arena.declaredAround_of_owner?
    suffices Succeeds (s.arena.footprint (.stmt t))
        (node.kind.declared ++ node.kind.stmtSlots.flatMap s.arena.declaredAround)
        (s.visitStmtWithin (depth + 1) t) from this.keeping wf hnode
    rw [visitStmtWithin, hnode]
    refine (Succeeds.read rfl).bind ?_
    rintro _ rfl
    cases hk : node.kind with
    | block body =>
      rw [hk] at stmt
      exact .forM stmt
    | conditional condition body otherwise =>
      rw [hk] at expr stmt
      refine (expr condition (by simp [Stmt.exprSlots])).bind fun _ _ => ?_
      refine (stmt body (by simp [Stmt.stmtSlots])).andThen fun _ _ => ?_
      exact .forM_option fun u hu => stmt u (by simp [Stmt.stmtSlots, Option.mem_def.1 hu])
    | whileLoop condition body =>
      rw [hk] at expr stmt
      refine (expr condition (by simp [Stmt.exprSlots])).bind fun _ _ => ?_
      simpa [Stmt.declared, Stmt.stmtSlots] using stmt body (by simp [Stmt.stmtSlots])
    | forIn pattern iterated body =>
      rw [hk] at expr stmt child
      refine (expr iterated (by simp [Stmt.exprSlots])).bind fun type _ => ?_
      refine (Succeeds.modify fun p => .report p _ _).bind fun _ _ => ?_
      refine (succeeds_bindLoop wf (child body (by simp [Stmt.stmtSlots])) _ pattern).bind
        fun _ _ => ?_
      simpa [Stmt.declared, Stmt.stmtSlots] using stmt body (by simp [Stmt.stmtSlots])
    | «variables» declarations =>
      rw [hk] at expr
      refine (succeeds_declareVariables wf ht declarations).andThen fun _ _ => ?_
      refine .forM_quiet fun d hd => .forM_option_quiet fun x hx => .discard (expr x ?_)
      exact List.mem_filterMap.2 ⟨d, hd, hx⟩
    | expressions items =>
      rw [hk] at expr
      exact .forM_quiet fun x hx => .discard (expr x hx)
    | returning value =>
      rw [hk] at expr
      exact .forM_option_quiet fun x hx =>
        .discard (expr x (by simp [Stmt.exprSlots, Option.mem_def.1 hx]))
    | breaking => exact .pure trivial
    | continuing => exact .pure trivial

theorem succeeds_visitStmt {t : StmtId} (ht : s.arena.contains (.stmt t)) :
    Succeeds (s.arena.footprint (.stmt t)) (s.arena.declaredAround t) (s.visitStmt t) := by
  obtain ⟨rank, hle, hrank⟩ := wf.exists_stmtRank
  exact succeeds_visitStmtWithin wf hrank (Nat.lt_succ_of_le (hle t)) ht

end Setting

namespace Resolver

variable {t : Tree} (wf : t.arena.WellFormed) (r : Resolver)
include wf

/-- In either mode and whatever is noted in the tree, a run ends with a result. -/
theorem exists_resolveTypes {root : StmtId} (hroot : t.contains (.stmt root)) :
    ∃ t' r', r.resolveTypes t root = .ok (t', r') := by
  obtain ⟨nodes, hnodes, -⟩ := wf.exists_nodes hroot
  have hpurge : r.purge t root = .ok (nodes.foldl r.forget t.notes) := by
    rw [purge, hnodes]
    rfl
  obtain ⟨_, q, hrun, -⟩ := Setting.succeeds_visitStmt (s := r.setting t.arena) wf hroot
    ⟨nodes.foldl r.forget t.notes, r.diagnostics⟩
  rw [resolveTypes, if_pos hroot, hpurge]
  simp only [run, hrun]
  exact ⟨_, _, rfl⟩

/-- In either mode and whatever is noted in the tree, a single expression can be resolved. -/
theorem exists_resolveType {e : ExprId} (he : t.contains (.expr e)) :
    ∃ type t' r', r.resolveType t e = .ok (type, t', r') := by
  obtain ⟨type, q, hrun, -⟩ := Setting.succeeds_visitExpr (s := r.setting t.arena) wf he
    ⟨t.notes, r.diagnostics⟩
  rw [resolveType, if_pos he, run, hrun]
  exact ⟨_, _, _, rfl⟩

end Resolver
end ExprTyping
