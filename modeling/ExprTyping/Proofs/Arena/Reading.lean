import ExprTyping.Proofs.Arena.WellFormed
import ExprTyping.Proofs.Syntax.Term
import Mathlib.Tactic.Choose

/-!
# Reading programs off an arena

`Arena.Holds P` says that the arena holds the program `P`: at the handle of every node of `P` the
arena has that node, with the handles of its operands and inner statements, and the marks of the
expressions are what the parent links say. `Arena.HoldsTerm` is the same for a single expression.

`Arena.program` reads the program at a statement, and a well-formed arena holds what is read
(`WellFormed.holds_program`). `Arena.nodes` lists what is below a statement
(`WellFormed.exists_nodes`).
-/

namespace ExprTyping

theorem mapM_ok {α β ε : Type} {f : α → Except ε β} {g : α → β} {xs : List α}
    (h : ∀ x ∈ xs, f x = .ok (g x)) : xs.mapM f = .ok (xs.map g) := by
  induction xs with
  | nil => rfl
  | cons x rest ih =>
    rw [List.mapM_cons, h x (by simp), ih fun y hy => h y (by simp [hy])]
    rfl

namespace Arena

variable {a : Arena}

/-- The arena holds the term at its handle. -/
inductive HoldsTerm (a : Arena) : Term Mark → Prop
  | node {T : Term Mark} {parent : Option NodeId}
      (expr_eq : a.expr T.id = .ok ⟨T.shape.map (·.id), parent⟩)
      (isCallee_eq : a.isCallee T.id = .ok T.label.isCallee)
      (closesChain_eq : a.closesChain T.id = .ok T.label.closesChain)
      (operands : ∀ x ∈ T.shape.slots, HoldsTerm a x) : HoldsTerm a T

/-- The arena holds the program at its handle. -/
inductive Holds (a : Arena) : Program → Prop
  | node {P : Program} {parent : Option StmtId} {ownsScope : Bool}
      (stmt_eq : a.stmt P.id = .ok ⟨P.shape.map (·.id) (·.id), parent, ownsScope⟩)
      (exprs : ∀ T ∈ P.shape.exprSlots, a.HoldsTerm T)
      (stmts : ∀ Q ∈ P.shape.stmtSlots, Holds a Q) : Holds a P

/-! ## What stands below a held node -/

namespace HoldsTerm

variable {T x : Term Mark}

theorem operand (h : a.HoldsTerm T) (hx : x ∈ T.shape.slots) : a.HoldsTerm x := by
  cases h with
  | node _ _ _ operands => exact operands x hx

theorem exists_node (h : a.HoldsTerm T) :
    ∃ parent, a.expr T.id = .ok ⟨T.shape.map (·.id), parent⟩ := by
  cases h with
  | node expr_eq => exact ⟨_, expr_eq⟩

theorem isCallee_eq (h : a.HoldsTerm T) : a.isCallee T.id = .ok T.label.isCallee := by
  cases h with
  | node _ isCallee_eq => exact isCallee_eq

theorem closesChain_eq (h : a.HoldsTerm T) : a.closesChain T.id = .ok T.label.closesChain := by
  cases h with
  | node _ _ closesChain_eq => exact closesChain_eq

theorem children_eq (h : a.HoldsTerm T) :
    a.children (.expr T.id) = .ok (T.shape.slots.map fun x => .expr x.id) := by
  obtain ⟨parent, hT⟩ := h.exists_node
  rw [children_of_expr hT]
  simp

theorem child (h : a.HoldsTerm T) (hx : x ∈ T.shape.slots) :
    a.Child (.expr T.id) (.expr x.id) :=
  ⟨_, h.children_eq, List.mem_map.2 ⟨x, hx, rfl⟩⟩

/-- What is below a term is the term itself or below an operand. -/
theorem eq_or_below (h : a.HoldsTerm T) {n : NodeId} (hn : a.Below (.expr T.id) n) :
    n = .expr T.id ∨ ∃ x ∈ T.shape.slots, a.Below (.expr x.id) n := by
  rcases hn.eq_or_child with hn | ⟨c, ⟨cs, hcs, hc⟩, hcn⟩
  · exact .inl hn
  · rw [h.children_eq] at hcs
    cases hcs
    obtain ⟨x, hx, rfl⟩ := List.mem_map.1 hc
    exact .inr ⟨x, hx, hcn⟩

end HoldsTerm

namespace Holds

variable {P Q : Program} {T : Term Mark}

theorem expr (h : a.Holds P) (hT : T ∈ P.shape.exprSlots) : a.HoldsTerm T := by
  cases h with
  | node _ exprs => exact exprs T hT

theorem stmt (h : a.Holds P) (hQ : Q ∈ P.shape.stmtSlots) : a.Holds Q := by
  cases h with
  | node _ _ stmts => exact stmts Q hQ

theorem exists_node (h : a.Holds P) :
    ∃ parent ownsScope, a.stmt P.id = .ok ⟨P.shape.map (·.id) (·.id), parent, ownsScope⟩ := by
  cases h with
  | node stmt_eq => exact ⟨_, _, stmt_eq⟩

theorem children_eq (h : a.Holds P) :
    a.children (.stmt P.id) = .ok ((P.shape.exprSlots.map fun T => .expr T.id) ++
      P.shape.stmtSlots.map fun Q => .stmt Q.id) := by
  obtain ⟨parent, owns, hP⟩ := h.exists_node
  rw [children_of_stmt hP]
  simp [Function.comp_def]

theorem child_expr (h : a.Holds P) (hT : T ∈ P.shape.exprSlots) :
    a.Child (.stmt P.id) (.expr T.id) :=
  ⟨_, h.children_eq, List.mem_append_left _ (List.mem_map.2 ⟨T, hT, rfl⟩)⟩

theorem child_stmt (h : a.Holds P) (hQ : Q ∈ P.shape.stmtSlots) :
    a.Child (.stmt P.id) (.stmt Q.id) :=
  ⟨_, h.children_eq, List.mem_append_right _ (List.mem_map.2 ⟨Q, hQ, rfl⟩)⟩

/-- What is below a program is the program itself or below one of its expressions or inner
statements. -/
theorem eq_or_below (h : a.Holds P) {n : NodeId} (hn : a.Below (.stmt P.id) n) :
    n = .stmt P.id ∨ (∃ T ∈ P.shape.exprSlots, a.Below (.expr T.id) n) ∨
      ∃ Q ∈ P.shape.stmtSlots, a.Below (.stmt Q.id) n := by
  rcases hn.eq_or_child with hn | ⟨c, ⟨cs, hcs, hc⟩, hcn⟩
  · exact .inl hn
  · rw [h.children_eq] at hcs
    cases hcs
    rcases List.mem_append.1 hc with hc | hc
    · obtain ⟨T, hT, rfl⟩ := List.mem_map.1 hc
      exact .inr (.inl ⟨T, hT, hcn⟩)
    · obtain ⟨Q, hQ, rfl⟩ := List.mem_map.1 hc
      exact .inr (.inr ⟨Q, hQ, hcn⟩)

end Holds

namespace WellFormed

/-! ## Marks -/

theorem exists_parentExpr (wf : a.WellFormed) {e : ExprId} (he : a.contains (.expr e)) :
    ∃ p, a.parentExpr e = .ok p ∧ ∀ x, p = some x → a.contains (.expr x) := by
  obtain ⟨node, hnode⟩ := exists_expr he
  have hpar := parent_of_expr hnode
  rw [parentExpr_of_expr hnode]
  match hp : node.parent with
  | none => exact ⟨none, rfl, fun x hx => by cases hx⟩
  | some (.stmt s) => exact ⟨none, rfl, fun x hx => by cases hx⟩
  | some (.expr y) =>
    refine ⟨some y, rfl, ?_⟩
    rintro x ⟨⟩
    exact wf.contains_parent _ _ (hpar.trans (by rw [hp]))

/-- What is decided by the parent of an expression, if that is an expression, can be decided. -/
theorem exists_of_parentExpr (wf : a.WellFormed) {e : ExprId} (he : a.contains (.expr e))
    (decide : ExprNode → Bool) :
    ∃ b, (do match ← a.parentExpr e with
      | some p => return decide (← a.expr p)
      | none => return false : Except Fault Bool) = .ok b := by
  obtain ⟨p, hp, hcontains⟩ := wf.exists_parentExpr he
  rw [hp]
  cases p with
  | none => exact ⟨false, rfl⟩
  | some x =>
    obtain ⟨node, hx⟩ := exists_expr (hcontains x rfl)
    refine ⟨decide node, ?_⟩
    show (do return decide (← a.expr x) : Except Fault Bool) = _
    rw [hx]
    rfl

theorem exists_isCallee (wf : a.WellFormed) {e : ExprId} (he : a.contains (.expr e)) :
    ∃ b, a.isCallee e = .ok b :=
  wf.exists_of_parentExpr he fun node => node.kind.callee? == some e

theorem exists_isReceiver (wf : a.WellFormed) {e : ExprId} (he : a.contains (.expr e)) :
    ∃ b, a.isReceiver e = .ok b :=
  wf.exists_of_parentExpr he fun node => node.kind.receiver? == some e

theorem isCallee_of_slot (wf : a.WellFormed) {e x : ExprId} {node : ExprNode}
    (hnode : a.expr e = .ok node) (hx : x ∈ node.kind.slots) :
    a.isCallee x = .ok (node.kind.callee? == some x) := by
  rw [isCallee, wf.parentExpr_of_child ((child_expr_iff hnode).2 ⟨x, hx, rfl⟩)]
  show (do return (← a.expr e).kind.callee? == some x : Except Fault Bool) = _
  rw [hnode]
  rfl

theorem isReceiver_of_slot (wf : a.WellFormed) {e x : ExprId} {node : ExprNode}
    (hnode : a.expr e = .ok node) (hx : x ∈ node.kind.slots) :
    a.isReceiver x = .ok (node.kind.receiver? == some x) := by
  rw [isReceiver, wf.parentExpr_of_child ((child_expr_iff hnode).2 ⟨x, hx, rfl⟩)]
  show (do return (← a.expr e).kind.receiver? == some x : Except Fault Bool) = _
  rw [hnode]
  rfl

/-- No statement calls its expressions, or applies anything to them. -/
theorem not_applied_of_stmt (wf : a.WellFormed) {s : StmtId} {x : ExprId}
    (hx : a.Child (.stmt s) (.expr x)) : a.isCallee x = .ok false ∧ a.isReceiver x = .ok false := by
  obtain ⟨node, hnode⟩ := exists_expr (wf.contains_child _ _ hx)
  have hparent := (parent_of_expr hnode).symm.trans ((wf.child_iff_parent _ _).1 hx)
  rw [isCallee, isReceiver, parentExpr_of_expr hnode, Except.ok.inj hparent]
  exact ⟨rfl, rfl⟩

theorem isCallee_of_callee? (wf : a.WellFormed) {e x : ExprId} {node : ExprNode}
    (hnode : a.expr e = .ok node) (hx : node.kind.callee? = some x) : a.isCallee x = .ok true := by
  rw [wf.isCallee_of_slot hnode (Expr.mem_slots_of_callee? hx), hx, beq_self_eq_true]

theorem isReceiver_of_receiver? (wf : a.WellFormed) {e x : ExprId} {node : ExprNode}
    (hnode : a.expr e = .ok node) (hx : node.kind.receiver? = some x) :
    a.isReceiver x = .ok true := by
  rw [wf.isReceiver_of_slot hnode (Expr.mem_slots_of_receiver? hx), hx, beq_self_eq_true]

/-- What is called is what the call is applied to. -/
theorem isReceiver_of_isCallee (wf : a.WellFormed) {e : ExprId} (he : a.isCallee e = .ok true) :
    a.isReceiver e = .ok true := by
  cases hparent : a.parentExpr e with
  | error fault => rw [isCallee, hparent] at he; cases he
  | ok parent =>
    rw [isCallee, hparent] at he
    cases parent with
    | none => cases he
    | some p =>
      have he : (do return (← a.expr p).kind.callee? == some e : Except Fault Bool) = .ok true := he
      cases hp : a.expr p with
      | error fault => rw [hp] at he; cases he
      | ok node =>
        rw [hp] at he
        have hcallee : node.kind.callee? = some e := beq_iff_eq.1 (Except.ok.inj he)
        refine wf.isReceiver_of_receiver? hp ?_
        cases hk : node.kind with
        | call g arguments =>
          rw [hk] at hcallee
          exact hcallee
        | _ => rw [hk] at hcallee; cases hcallee

theorem exists_spineHasLink (wf : a.WellFormed) {e : ExprId} (he : a.contains (.expr e)) :
    ∃ b, a.spineHasLink (a.exprs.size + 1) e = .ok b := by
  obtain ⟨rank, hle, hlt⟩ := wf.exists_exprRank
  suffices ∀ bound e, rank e < bound → a.contains (.expr e) →
      ∃ b, a.spineHasLink bound e = .ok b from this _ e (Nat.lt_succ_of_le (hle e)) he
  intro bound
  induction bound with
  | zero => intro e h; omega
  | succ bound ih =>
    intro e hrank he
    obtain ⟨node, hnode⟩ := exists_expr he
    have up : ∀ x, node.kind.receiver? = some x → ∃ b, a.spineHasLink bound x = .ok b := by
      intro x hx
      have hchild : a.Child (.expr e) (.expr x) :=
        (child_expr_iff hnode).2 ⟨x, Expr.mem_slots_of_receiver? hx, rfl⟩
      have := hlt e x hchild
      exact ih x (by omega) (wf.contains_child _ _ hchild)
    rw [spineHasLink, hnode]
    simp only [bind, Except.bind]
    split
    · exact ⟨true, rfl⟩
    · split
      · exact up _ ‹_›
      · exact ⟨false, rfl⟩

theorem exists_closesChain (wf : a.WellFormed) {e : ExprId} (he : a.contains (.expr e)) :
    ∃ b, a.closesChain e = .ok b := by
  obtain ⟨r, hr⟩ := wf.exists_isReceiver he
  obtain ⟨b, hb⟩ := wf.exists_spineHasLink he
  rw [closesChain, hr]
  cases r with
  | true => exact ⟨false, rfl⟩
  | false => exact ⟨b, hb⟩

end WellFormed

/-- The mark on an operand says whether it is the callee. -/
theorem HoldsTerm.isCallee_operand {T x : Term Mark} (hT : a.HoldsTerm T) (wf : a.WellFormed)
    (hx : x ∈ T.shape.slots) :
    x.label.isCallee = (T.shape.callee?.map (·.id) == some x.id) := by
  obtain ⟨parent, hnode⟩ := hT.exists_node
  have hslot : x.id ∈ (T.shape.map (·.id)).slots := by
    rw [Expr.slots_map]
    exact List.mem_map.2 ⟨x, hx, rfl⟩
  rw [← Expr.callee?_map]
  exact Except.ok.inj ((hT.operand hx).isCallee_eq.symm.trans (wf.isCallee_of_slot hnode hslot))

theorem Holds.isCallee_expr {P : Program} {T : Term Mark} (hP : a.Holds P) (wf : a.WellFormed)
    (hT : T ∈ P.shape.exprSlots) : T.label.isCallee = false :=
  Except.ok.inj ((hP.expr hT).isCallee_eq.symm.trans (wf.not_applied_of_stmt (hP.child_expr hT)).1)

/-- The links on the way down the receivers of an expression, one step at a time. -/
theorem spineHasLink_succ {e : ExprId} {node : ExprNode} (h : a.expr e = .ok node) (bound : ℕ) :
    a.spineHasLink (bound + 1) e =
      match node.kind with
      | .chain _ => .ok true
      | kind =>
        match kind.receiver? with
        | some x => a.spineHasLink bound x
        | none => .ok false := by
  rw [spineHasLink, h]
  rfl

/-- A bound that is not met makes no difference. -/
theorem spineHasLink_eq {rank : ExprId → ℕ}
    (hrank : ∀ e x, a.Child (.expr e) (.expr x) → rank x < rank e) {bound bound' : ℕ} {e : ExprId}
    (hbound : rank e < bound) (hbound' : rank e < bound') :
    a.spineHasLink bound e = a.spineHasLink bound' e := by
  induction bound generalizing bound' e with
  | zero => omega
  | succ bound ih =>
    obtain ⟨bound', rfl⟩ : ∃ b, bound' = b + 1 := ⟨bound' - 1, by omega⟩
    cases hnode : a.expr e with
    | error fault => rw [spineHasLink, spineHasLink, hnode]; rfl
    | ok node =>
      rw [spineHasLink_succ hnode, spineHasLink_succ hnode]
      split
      · rfl
      · split
        · rename_i x hx
          have hlt := hrank e x ((child_expr_iff hnode).2 ⟨x, Expr.mem_slots_of_receiver? hx, rfl⟩)
          exact ih (by omega) (by omega)
        · rfl

/-! ## Reading -/

/-- What the surroundings of an expression decide about it. -/
def mark (a : Arena) (e : ExprId) : Mark :=
  ⟨(a.isCallee e).toOption.getD false, (a.closesChain e).toOption.getD false⟩

/-- The term at an expression, read to the given depth. What cannot be read is left out. -/
def termWithin (a : Arena) : Nat → ExprId → Term Mark
  | 0, e => ⟨e, a.mark e, .constant .nil⟩
  | depth + 1, e =>
    match a.expr e with
    | .ok node => ⟨e, a.mark e, node.kind.map (a.termWithin depth)⟩
    | .error _ => ⟨e, a.mark e, .constant .nil⟩

/-- The term at an expression. A path down that meets no expression twice meets at most all of
them. -/
def term (a : Arena) (e : ExprId) : Term Mark := a.termWithin (a.exprs.size + 1) e

/-- The program at a statement, read to the given depth. What cannot be read is left out. -/
def programWithin (a : Arena) : Nat → StmtId → Program
  | 0, s => ⟨s, .breaking⟩
  | depth + 1, s =>
    match a.stmt s with
    | .ok node => ⟨s, node.kind.map a.term (a.programWithin depth)⟩
    | .error _ => ⟨s, .breaking⟩

/-- The program at a statement. -/
def program (a : Arena) (s : StmtId) : Program := a.programWithin (a.stmts.size + 1) s

theorem termWithin_id (a : Arena) (depth : ℕ) (e : ExprId) : (a.termWithin depth e).id = e := by
  cases depth with
  | zero => rfl
  | succ depth =>
    rw [termWithin]
    split <;> rfl

theorem term_id (a : Arena) (e : ExprId) : (a.term e).id = e := termWithin_id ..

theorem programWithin_id (a : Arena) (depth : ℕ) (s : StmtId) :
    (a.programWithin depth s).id = s := by
  cases depth with
  | zero => rfl
  | succ depth =>
    rw [programWithin]
    split <;> rfl

@[simp] theorem program_id (a : Arena) (s : StmtId) : (a.program s).id = s := programWithin_id ..

namespace WellFormed

theorem holds_termWithin (wf : a.WellFormed) {rank : ExprId → ℕ}
    (hrank : ∀ e x, a.Child (.expr e) (.expr x) → rank x < rank e) {depth : ℕ} {e : ExprId}
    (hdepth : rank e < depth) (he : a.contains (.expr e)) :
    a.HoldsTerm (a.termWithin depth e) := by
  induction depth generalizing e with
  | zero => omega
  | succ depth ih =>
    obtain ⟨node, hnode⟩ := exists_expr he
    obtain ⟨isCallee, hcallee⟩ := wf.exists_isCallee he
    obtain ⟨closesChain, hcloses⟩ := wf.exists_closesChain he
    have hmark : a.mark e = ⟨isCallee, closesChain⟩ := by
      rw [mark, hcallee, hcloses]
      rfl
    rw [termWithin, hnode, hmark]
    have expr_eq : a.expr e = .ok ⟨(node.kind.map (a.termWithin depth)).map (·.id),
        node.parent⟩ := by
      rw [Expr.map_map, Expr.map_id_of_slots fun x _ => a.termWithin_id depth x]
      exact hnode
    apply HoldsTerm.node expr_eq hcallee hcloses
    intro T hT
    rw [Expr.slots_map] at hT
    obtain ⟨x, hx, rfl⟩ := List.mem_map.1 hT
    have hchild := (child_expr_iff hnode).2 ⟨x, hx, rfl⟩
    have hlt := hrank e x hchild
    exact ih (by omega) (wf.contains_child _ _ hchild)

/-- A well-formed arena holds the term at an expression. -/
theorem holds_term (wf : a.WellFormed) {e : ExprId} (he : a.contains (.expr e)) :
    a.HoldsTerm (a.term e) := by
  obtain ⟨rank, hle, hrank⟩ := wf.exists_exprRank
  exact wf.holds_termWithin hrank (Nat.lt_succ_of_le (hle e)) he

theorem holds_programWithin (wf : a.WellFormed) {rank : StmtId → ℕ}
    (hrank : ∀ s t, a.Child (.stmt s) (.stmt t) → rank t < rank s) {depth : ℕ} {s : StmtId}
    (hdepth : rank s < depth) (hs : a.contains (.stmt s)) :
    a.Holds (a.programWithin depth s) := by
  induction depth generalizing s with
  | zero => omega
  | succ depth ih =>
    obtain ⟨node, hnode⟩ := exists_stmt hs
    rw [programWithin, hnode]
    have stmt_eq : a.stmt s = .ok ⟨(node.kind.map a.term (a.programWithin depth)).map (·.id)
        (·.id), node.parent, node.ownsScope⟩ := by
      rw [Stmt.map_map, Stmt.map_id_of_slots (fun x _ => a.term_id x)
        fun t _ => a.programWithin_id depth t]
      exact hnode
    refine .node stmt_eq ?_ ?_
    · intro T hT
      rw [Stmt.exprSlots_map] at hT
      obtain ⟨x, hx, rfl⟩ := List.mem_map.1 hT
      exact wf.holds_term (wf.contains_child _ _ ((child_stmt_iff hnode).2 (.inl ⟨x, hx, rfl⟩)))
    · intro P hP
      rw [Stmt.stmtSlots_map] at hP
      obtain ⟨t, ht, rfl⟩ := List.mem_map.1 hP
      have hchild := (child_stmt_iff hnode).2 (.inr ⟨t, ht, rfl⟩)
      have hlt := hrank s t hchild
      exact ih (by omega) (wf.contains_child _ _ hchild)

/-- A well-formed arena holds the program at a statement. -/
theorem holds_program (wf : a.WellFormed) {s : StmtId} (hs : a.contains (.stmt s)) :
    a.Holds (a.program s) := by
  obtain ⟨rank, hle, hrank⟩ := wf.exists_stmtRank
  exact wf.holds_programWithin hrank (Nat.lt_succ_of_le (hle s)) hs

/-- A depth that is not met makes no difference. -/
theorem termWithin_eq {rank : ExprId → ℕ}
    (hrank : ∀ e x, a.Child (.expr e) (.expr x) → rank x < rank e) {depth depth' : ℕ} {e : ExprId}
    (hdepth : rank e < depth) (hdepth' : rank e < depth') :
    a.termWithin depth e = a.termWithin depth' e := by
  induction depth generalizing depth' e with
  | zero => omega
  | succ depth ih =>
    obtain ⟨depth', rfl⟩ : ∃ d, depth' = d + 1 := ⟨depth' - 1, by omega⟩
    rw [termWithin, termWithin]
    cases hnode : a.expr e with
    | error fault => rfl
    | ok node =>
      have hoperands : node.kind.map (a.termWithin depth) =
          node.kind.map (a.termWithin depth') := by
        refine Expr.map_congr fun x hx => ?_
        have hlt := hrank e x ((child_expr_iff hnode).2 ⟨x, hx, rfl⟩)
        exact ih (by omega) (by omega)
      simp only [hoperands]

/-- The term at an expression is made of the terms at its operands. -/
theorem term_eq (wf : a.WellFormed) {e : ExprId} {node : ExprNode} (hnode : a.expr e = .ok node) :
    a.term e = ⟨e, a.mark e, node.kind.map a.term⟩ := by
  obtain ⟨rank, hle, hrank⟩ := wf.exists_exprRank
  have hoperands : node.kind.map (a.termWithin a.exprs.size) = node.kind.map a.term := by
    refine Expr.map_congr fun x hx => termWithin_eq hrank ?_ (Nat.lt_succ_of_le (hle x))
    exact (hrank e x ((child_expr_iff hnode).2 ⟨x, hx, rfl⟩)).trans_le (hle e)
  rw [term, termWithin, hnode]
  simp only [hoperands]

theorem term_mem_slots (wf : a.WellFormed) {e x : ExprId} {node : ExprNode}
    (hnode : a.expr e = .ok node) (hx : x ∈ node.kind.slots) :
    a.term x ∈ (a.term e).shape.slots := by
  rw [wf.term_eq hnode, Expr.slots_map]
  exact List.mem_map.2 ⟨x, hx, rfl⟩

/-- The arena holds one term at each expression. -/
theorem eq_term (wf : a.WellFormed) {T : Term Mark} (hT : a.HoldsTerm T) : T = a.term T.id := by
  induction T using Term.induct with
  | node T ih =>
    obtain ⟨parent, hnode⟩ := hT.exists_node
    have hmark : a.mark T.id = T.label := by
      rw [mark, hT.isCallee_eq, hT.closesChain_eq]
      rfl
    have hshape : T.shape.map (fun x => a.term x.id) = T.shape :=
      Expr.map_id_of_slots fun x hx => (ih x hx (hT.operand hx)).symm
    rw [wf.term_eq hnode, hmark, Expr.map_map, hshape]
    cases T
    rfl

theorem programWithin_eq {rank : StmtId → ℕ}
    (hrank : ∀ s t, a.Child (.stmt s) (.stmt t) → rank t < rank s) {depth depth' : ℕ} {s : StmtId}
    (hdepth : rank s < depth) (hdepth' : rank s < depth') :
    a.programWithin depth s = a.programWithin depth' s := by
  induction depth generalizing depth' s with
  | zero => omega
  | succ depth ih =>
    obtain ⟨depth', rfl⟩ : ∃ d, depth' = d + 1 := ⟨depth' - 1, by omega⟩
    rw [programWithin, programWithin]
    cases hnode : a.stmt s with
    | error fault => rfl
    | ok node =>
      have hinner : node.kind.map a.term (a.programWithin depth) =
          node.kind.map a.term (a.programWithin depth') := by
        refine Stmt.map_congr (fun _ _ => rfl) fun t ht => ?_
        have hlt := hrank s t ((child_stmt_iff hnode).2 (.inr ⟨t, ht, rfl⟩))
        exact ih (by omega) (by omega)
      simp only [hinner]

/-- The program at a statement is made of the terms and programs at what is directly inside. -/
theorem program_eq (wf : a.WellFormed) {s : StmtId} {node : StmtNode}
    (hnode : a.stmt s = .ok node) : a.program s = ⟨s, node.kind.map a.term a.program⟩ := by
  obtain ⟨rank, hle, hrank⟩ := wf.exists_stmtRank
  have hinner : node.kind.map a.term (a.programWithin a.stmts.size) =
      node.kind.map a.term a.program := by
    refine Stmt.map_congr (fun _ _ => rfl) fun t ht =>
      programWithin_eq hrank ?_ (Nat.lt_succ_of_le (hle t))
    exact (hrank s t ((child_stmt_iff hnode).2 (.inr ⟨t, ht, rfl⟩))).trans_le (hle s)
  rw [program, programWithin, hnode]
  simp only [hinner]

/-! ## The nodes below -/

/-- The list of the nodes below a node is what is below it. -/
theorem exists_nodes (wf : a.WellFormed) {root : NodeId} (hroot : a.contains root) :
    ∃ l, a.nodes root = .ok l ∧ ∀ n, n ∈ l ↔ a.Below root n := by
  obtain ⟨rank, hle, hlt⟩ := wf.exists_rank_child
  suffices ∀ depth root, rank root < depth → a.contains root →
      ∃ l, a.nodesWithin depth root = .ok l ∧ ∀ n, n ∈ l ↔ a.Below root n by
    rw [nodes, if_pos hroot]
    exact this _ root (Nat.lt_succ_of_le (hle root)) hroot
  intro depth
  induction depth with
  | zero => intro root h; omega
  | succ depth ih =>
    intro root hrank hroot
    obtain ⟨cs, hcs⟩ := exists_children hroot
    have below : ∀ c ∈ cs, ∃ l, a.nodesWithin depth c = .ok l ∧ ∀ n, n ∈ l ↔ a.Below c n := by
      intro c hc
      have hchild : a.Child root c := ⟨cs, hcs, hc⟩
      have := hlt root c hchild
      exact ih c (by omega) (wf.contains_child _ _ hchild)
    choose! list hlist hmem using below
    refine ⟨root :: (cs.map list).flatten, ?_, fun n => ?_⟩
    · rw [nodesWithin, hcs]
      simp only [bind, Except.bind, mapM_ok hlist]
      rfl
    · rw [List.mem_cons, List.mem_flatten]
      constructor
      · rintro (rfl | ⟨l, hl, hn⟩)
        · exact .refl n
        · obtain ⟨c, hc, rfl⟩ := List.mem_map.1 hl
          exact .of_child ⟨cs, hcs, hc⟩ ((hmem c hc n).1 hn)
      · intro hn
        rcases hn.eq_or_child with hn | ⟨c, ⟨cs', hcs', hc⟩, hcn⟩
        · exact .inl hn
        · rw [hcs] at hcs'
          cases hcs'
          exact .inr ⟨list c, List.mem_map.2 ⟨c, hc, rfl⟩, (hmem c hc n).2 hcn⟩

theorem mem_nodes (wf : a.WellFormed) {root n : NodeId} (hroot : a.contains root)
    {l : List NodeId} (hl : a.nodes root = .ok l) : n ∈ l ↔ a.Below root n := by
  obtain ⟨l', hl', hmem⟩ := wf.exists_nodes hroot
  rw [hl] at hl'
  cases hl'
  exact hmem n

end WellFormed
end Arena
end ExprTyping
