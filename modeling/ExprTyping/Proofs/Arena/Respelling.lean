import ExprTyping.Proofs.Arena.Links
import ExprTyping.Vocabulary.Name

/-!
# Calling a name or its init

`Arena.Respells` compares two arenas below a node. Where the first calls a name, `t(…)`, the second
calls the member `init` of the name, `t.init(…)`. Every other node has a counterpart in the second
arena, under another handle, which is made of the counterparts of its operands.

Counterparts stand in the same slots, and whatever is applied to the call or the name, there is no
optional link in them. So counterparts are called, and close a chain, alike (`Respells.mark_eq`).
The name is an exception, which makes no difference.
-/

namespace ExprTyping

/-- A call of a name that is spelled in two ways: in an arena as a call of the name, and in another
one as a call of the name's `init`. -/
structure Respelling where
  /-- The counterpart of an expression. -/
  expr : ExprId → ExprId
  /-- The counterpart of a statement. -/
  stmt : StmtId → StmtId
  /-- The call. -/
  call : ExprId
  /-- The name. -/
  name : ExprId
  arguments : List (Argument ExprId)
  /-- The member `init` in the second arena. -/
  init : ExprId

namespace Arena

variable {a b : Arena} {R : Respelling} {n : NodeId} {x y : ExprId} {s : StmtId} {node : ExprNode}

/-- Below the node, the two arenas have the same expressions and statements, except that the second
one calls the `init` of the name. -/
structure Respells (a b : Arena) (R : Respelling) (n : NodeId) : Prop where
  below_call : a.Below n (.expr R.call)
  expr_call : ∃ parent, a.expr R.call = .ok ⟨.call R.name R.arguments, parent⟩
  expr_name : ∃ text parent, a.expr R.name = .ok ⟨.identifier text, parent⟩
  new_call : ∃ parent, b.expr (R.expr R.call) =
    .ok ⟨.call R.init (R.arguments.map fun x => ⟨x.label, R.expr x.value⟩), parent⟩
  new_init : ∃ parent, b.expr R.init = .ok ⟨.member (R.expr R.name) Name.initMember, parent⟩
  new_expr : ∀ x node, a.Below n (.expr x) → x ≠ R.call → a.expr x = .ok node →
    ∃ parent, b.expr (R.expr x) = .ok ⟨node.kind.map R.expr, parent⟩
  new_stmt : ∀ s node, a.Below n (.stmt s) → a.stmt s = .ok node →
    ∃ parent, b.stmt (R.stmt s) = .ok ⟨node.kind.map R.expr R.stmt, parent, node.ownsScope⟩
  /-- If the node is an expression, what is around it does the same with it. -/
  surroundings : ∀ x, n = .expr x →
    b.isCallee (R.expr x) = a.isCallee x ∧ b.isReceiver (R.expr x) = a.isReceiver x

namespace Respells

variable (h : a.Respells b R n)
include h

/-! ## Counterparts -/

theorem child_name : a.Child (.expr R.call) (.expr R.name) := by
  obtain ⟨parent, hcall⟩ := h.expr_call
  exact (child_expr_iff hcall).2 ⟨R.name, List.mem_cons_self, rfl⟩

theorem child_argument {z : Argument ExprId} (hz : z ∈ R.arguments) :
    a.Child (.expr R.call) (.expr z.value) := by
  obtain ⟨parent, hcall⟩ := h.expr_call
  exact (child_expr_iff hcall).2
    ⟨z.value, List.mem_cons_of_mem _ (List.mem_map.2 ⟨z, hz, rfl⟩), rfl⟩

theorem name_ne_call : R.name ≠ R.call := by
  intro heq
  obtain ⟨_, hcall⟩ := h.expr_call
  obtain ⟨text, _, hname⟩ := h.expr_name
  rw [heq] at hname
  cases hcall.symm.trans hname

theorem exists_name : ∃ text parent parent', a.expr R.name = .ok ⟨.identifier text, parent⟩ ∧
    b.expr (R.expr R.name) = .ok ⟨.identifier text, parent'⟩ := by
  obtain ⟨text, parent, hname⟩ := h.expr_name
  obtain ⟨parent', hnew⟩ :=
    h.new_expr R.name _ (h.below_call.tail h.child_name) h.name_ne_call hname
  exact ⟨text, parent, parent', hname, hnew⟩

theorem contains_new (hx : a.Below n (.expr x)) (hnode : a.expr x = .ok node) :
    b.contains (.expr (R.expr x)) := by
  by_cases hne : x = R.call
  · obtain ⟨_, hcall⟩ := h.new_call
    exact hne ▸ contains_of_expr hcall
  · obtain ⟨_, hnew⟩ := h.new_expr x node hx hne hnode
    exact contains_of_expr hnew

theorem owns_eq (hs : a.Below n (.stmt s)) {node : StmtNode} (hnode : a.stmt s = .ok node) :
    b.owns (R.stmt s) = a.owns s := by
  obtain ⟨_, hnew⟩ := h.new_stmt s node hs hnode
  rw [Arena.owns_eq hnew, Arena.owns_eq hnode]

/-- Operands of one expression have different counterparts. -/
theorem eq_some_iff (wf' : b.WellFormed) (hx : a.Below n (.expr x)) (hne : x ≠ R.call)
    (hnode : a.expr x = .ok node) (hy : y ∈ node.kind.slots) {o : Option ExprId}
    (ho : ∀ z, o = some z → z ∈ node.kind.slots) :
    o.map R.expr = some (R.expr y) ↔ o = some y := by
  constructor
  · intro heq
    obtain ⟨z, rfl, hz⟩ := Option.map_eq_some_iff.1 heq
    obtain ⟨_, hnew⟩ := h.new_expr x node hx hne hnode
    have hnodup := wf'.nodup_children _ _ (children_of_expr hnew)
    rw [Expr.slots_map, List.map_map] at hnodup
    rw [List.inj_on_of_nodup_map hnodup (ho z rfl) hy (congrArg NodeId.expr hz)]
  · rintro rfl
    rfl

/-! ## Marks -/

omit h in
/-- The counterpart of an argument is an argument of the new call. -/
theorem argument_mem {z : Argument ExprId} (hz : z ∈ R.arguments) : R.expr z.value ∈
    (R.arguments.map fun x => (⟨x.label, R.expr x.value⟩ : Argument ExprId)).map (·.value) :=
  List.mem_map.2 ⟨_, List.mem_map.2 ⟨z, hz, rfl⟩, rfl⟩

theorem init_ne_argument (wf' : b.WellFormed) {z : Argument ExprId} (hz : z ∈ R.arguments) :
    R.init ≠ R.expr z.value := by
  intro heq
  obtain ⟨_, hnew⟩ := h.new_call
  have hnodup := wf'.nodup_children _ _ (children_of_expr hnew)
  rw [Expr.slots, List.map_cons, List.nodup_cons] at hnodup
  exact hnodup.1 (heq ▸ List.mem_map.2 ⟨_, argument_mem hz, rfl⟩)

/-- An argument is not what the call is applied to, in either arena. -/
theorem surroundings_argument (wf : a.WellFormed) (wf' : b.WellFormed) {z : Argument ExprId}
    (hz : z ∈ R.arguments) (hne : z.value ≠ R.name) :
    b.isCallee (R.expr z.value) = a.isCallee z.value ∧
      b.isReceiver (R.expr z.value) = a.isReceiver z.value := by
  obtain ⟨_, hcall⟩ := h.expr_call
  obtain ⟨_, hnew⟩ := h.new_call
  have hslot : z.value ∈ (Expr.call R.name R.arguments).slots :=
    List.mem_cons_of_mem _ (List.mem_map.2 ⟨z, hz, rfl⟩)
  have hslot' := List.mem_cons_of_mem R.init (argument_mem hz)
  rw [wf.isCallee_of_slot hcall hslot, wf.isReceiver_of_slot hcall hslot,
    wf'.isCallee_of_slot hnew hslot', wf'.isReceiver_of_slot hnew hslot']
  simp [Expr.callee?, Expr.receiver?, h.init_ne_argument wf' hz, Ne.symm hne]

/-- What is around an expression does the same with its counterpart. -/
theorem surroundings_eq (wf : a.WellFormed) (wf' : b.WellFormed) (hx : a.Below n (.expr x))
    (hne : x ≠ R.name) :
    b.isCallee (R.expr x) = a.isCallee x ∧ b.isReceiver (R.expr x) = a.isReceiver x := by
  rcases Relation.ReflTransGen.cases_tail hx with heq | ⟨p, hp, hchild⟩
  · exact h.surroundings x heq.symm
  cases p with
  | stmt s =>
    obtain ⟨node, hs⟩ := exists_stmt hchild.contains
    obtain ⟨_, hnew⟩ := h.new_stmt s node hp hs
    have hchild' : b.Child (.stmt (R.stmt s)) (.expr (R.expr x)) := by
      rcases (child_stmt_iff hs).1 hchild with ⟨y, hy, heq⟩ | ⟨t, -, heq⟩
      · cases heq
        exact (child_stmt_iff hnew).2 (.inl ⟨R.expr x, by simpa using ⟨x, hy, rfl⟩, rfl⟩)
      · cases heq
    obtain ⟨hcallee, hreceiver⟩ := wf.not_applied_of_stmt hchild
    obtain ⟨hcallee', hreceiver'⟩ := wf'.not_applied_of_stmt hchild'
    exact ⟨hcallee'.trans hcallee.symm, hreceiver'.trans hreceiver.symm⟩
  | expr q =>
    obtain ⟨node, hq⟩ := exists_expr hchild.contains
    obtain ⟨y, hy, heq⟩ := (child_expr_iff hq).1 hchild
    cases heq
    by_cases hcall : q = R.call
    · obtain ⟨_, hnode⟩ := h.expr_call
      rw [hcall] at hq
      cases hnode.symm.trans hq
      obtain ⟨z, hz, rfl⟩ := List.mem_map.1 ((List.mem_cons.1 hy).resolve_left hne)
      exact h.surroundings_argument wf wf' hz hne
    · obtain ⟨_, hnew⟩ := h.new_expr q node hp hcall hq
      have hy' : R.expr x ∈ (node.kind.map R.expr).slots := by
        rw [Expr.slots_map]
        exact List.mem_map.2 ⟨x, hy, rfl⟩
      have same : ∀ o : Option ExprId, (∀ z, o = some z → z ∈ node.kind.slots) →
          (o.map R.expr == some (R.expr x)) = (o == some x) := fun o ho => by
        rw [Bool.eq_iff_iff, beq_iff_eq, beq_iff_eq]
        exact h.eq_some_iff wf' hp hcall hq hy ho
      rw [wf.isCallee_of_slot hq hy, wf.isReceiver_of_slot hq hy, wf'.isCallee_of_slot hnew hy',
        wf'.isReceiver_of_slot hnew hy', Expr.callee?_map, Expr.receiver?_map,
        same _ fun z hz => Expr.mem_slots_of_callee? hz,
        same _ fun z hz => Expr.mem_slots_of_receiver? hz]
      exact ⟨rfl, rfl⟩

theorem not_linked_name : ¬ a.Linked R.name := by
  obtain ⟨text, _, hname⟩ := h.expr_name
  rw [linked_iff hname]
  simp [Expr.receiver?]

theorem not_linked_new_name : ¬ b.Linked (R.expr R.name) := by
  obtain ⟨text, _, _, -, hname⟩ := h.exists_name
  rw [linked_iff hname]
  simp [Expr.receiver?]

theorem not_linked_call : ¬ a.Linked R.call := by
  obtain ⟨_, hcall⟩ := h.expr_call
  rw [linked_iff hcall]
  simpa [Expr.receiver?] using h.not_linked_name

theorem not_linked_new_call : ¬ b.Linked (R.expr R.call) := by
  obtain ⟨_, hcall⟩ := h.new_call
  obtain ⟨_, hinit⟩ := h.new_init
  rw [linked_iff hcall]
  simp only [Expr.receiver?, Option.some.injEq, exists_eq_left', reduceCtorEq, exists_false,
    false_or]
  rw [linked_iff hinit]
  simpa [Expr.receiver?] using h.not_linked_new_name

/-- An expression is built on an optional link if its counterpart is. -/
theorem linked_new_iff (wf : a.WellFormed) (hx : a.Below n (.expr x))
    (hcontains : a.contains (.expr x)) : b.Linked (R.expr x) ↔ a.Linked x := by
  induction x using wf.expr_induct with
  | node x ih =>
    by_cases hcall : x = R.call
    · rw [hcall]
      exact iff_of_false h.not_linked_new_call h.not_linked_call
    obtain ⟨node, hnode⟩ := exists_expr hcontains
    obtain ⟨_, hnew⟩ := h.new_expr x node hx hcall hnode
    have hchain :
        (∃ base, node.kind.map R.expr = .chain base) ↔ ∃ base, node.kind = .chain base := by
      cases node.kind <;> simp [Expr.map]
    rw [linked_iff hnew, linked_iff hnode, hchain]
    refine or_congr Iff.rfl ?_
    simp only [Expr.receiver?_map, Option.map_eq_some_iff, ↓existsAndEq, and_true]
    refine exists_congr fun y => and_congr_right fun hy => ?_
    have hchild : a.Child (.expr x) (.expr y) :=
      (child_expr_iff hnode).2 ⟨y, Expr.mem_slots_of_receiver? hy, rfl⟩
    exact ih y (.single hchild) (hx.tail hchild) (wf.contains_child _ _ hchild)

theorem mark_eq (wf : a.WellFormed) (wf' : b.WellFormed) (hx : a.Below n (.expr x))
    (hnode : a.expr x = .ok node) (hne : x ≠ R.name) : b.mark (R.expr x) = a.mark x := by
  obtain ⟨hcallee, hreceiver⟩ := h.surroundings_eq wf wf' hx hne
  have hcontains := contains_of_expr hnode
  have hcloses : (b.mark (R.expr x)).closesChain = (a.mark x).closesChain := by
    rw [Bool.eq_iff_iff, wf'.closesChain_iff (h.contains_new hx hnode),
      wf.closesChain_iff hcontains, EndsChain, EndsChain, hreceiver,
      h.linked_new_iff wf hx hcontains]
  have hcalled : (b.mark (R.expr x)).isCallee = (a.mark x).isCallee := by
    rw [mark, mark, hcallee]
  calc b.mark (R.expr x) = ⟨(a.mark x).isCallee, (a.mark x).closesChain⟩ := by
        rw [← hcalled, ← hcloses]
    _ = a.mark x := rfl

theorem mark_call (wf : a.WellFormed) : (a.mark R.call).closesChain = false := by
  obtain ⟨_, hcall⟩ := h.expr_call
  rw [← Bool.not_eq_true, wf.closesChain_iff (contains_of_expr hcall)]
  exact fun hends => h.not_linked_call hends.2

theorem mark_init (wf' : b.WellFormed) : b.mark R.init = ⟨true, false⟩ := by
  obtain ⟨_, hcall⟩ := h.new_call
  rw [mark_of_isReceiver (wf'.isReceiver_of_receiver? hcall rfl),
    wf'.isCallee_of_callee? hcall rfl]
  rfl

/-! ## Programs -/

theorem program_new (wf' : b.WellFormed) (hs : a.Below n (.stmt s)) {node : StmtNode}
    (hnode : a.stmt s = .ok node) : b.program (R.stmt s) =
      ⟨R.stmt s, node.kind.map (fun y => b.term (R.expr y)) fun t => b.program (R.stmt t)⟩ := by
  obtain ⟨_, hnew⟩ := h.new_stmt s node hs hnode
  rw [wf'.program_eq hnew, Stmt.map_map]

end Respells
end Arena
end ExprTyping
