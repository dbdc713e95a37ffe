import ExprTyping.Proofs.Arena.Reading
import Mathlib.Data.List.Nodup

/-!
# The order of a visit

`Program.visitOrder` lists the nodes of a program in the order in which a visit is done with them:
an expression after its operands, from left to right, and a statement after its expressions and
before its inner statements, in source order.

In a well-formed arena this lists what is below the program (`Holds.mem_visitOrder`), each node once
(`Holds.nodup_visitOrder`).
-/

namespace ExprTyping

/-! ## Orders -/

/-- The expressions of a term, each after its operands. -/
def Term.postorder {α : Type} : Term α → List ExprId :=
  Term.fold fun T operands => operands.slots.flatMap (·.2) ++ [T.id]

theorem Term.postorder_eq {α : Type} (T : Term α) :
    T.postorder = T.shape.slots.flatMap postorder ++ [T.id] := by
  rw [postorder, Term.fold_eq]
  simp only [Expr.slots_map, List.flatMap_map]

namespace Program

mutual

/-- The nodes of a program in the order in which a visit is done with them. -/
def visitOrder : Program → List NodeId
  | ⟨id, shape⟩ =>
    shape.exprSlots.flatMap (fun T => T.postorder.map .expr) ++ .stmt id :: innerOrder shape
termination_by structural P => P

/-- The nodes in the inner programs of a statement. -/
def innerOrder : Stmt (Term Mark) Program → List NodeId
  | .block body => allOrder body
  | .conditional _ body none => visitOrder body
  | .conditional _ body (some otherwise) => visitOrder body ++ visitOrder otherwise
  | .whileLoop _ body | .forIn _ _ body => visitOrder body
  | .variables _ | .expressions _ | .returning _ | .breaking | .continuing => []
termination_by structural shape => shape

/-- The nodes of several programs. -/
def allOrder : List Program → List NodeId
  | [] => []
  | P :: rest => visitOrder P ++ allOrder rest
termination_by structural Ps => Ps

end

theorem allOrder_eq (Ps : List Program) : allOrder Ps = Ps.flatMap visitOrder := by
  induction Ps with
  | nil => rfl
  | cons P rest ih => rw [allOrder, ih, List.flatMap_cons]

theorem visitOrder_eq (P : Program) :
    P.visitOrder = P.shape.exprSlots.flatMap (fun T => T.postorder.map .expr) ++
      .stmt P.id :: P.shape.stmtSlots.flatMap visitOrder := by
  obtain ⟨id, shape⟩ := P
  rw [visitOrder]
  congr 2
  cases shape with
  | block body => exact allOrder_eq body
  | conditional c body otherwise => cases otherwise <;> simp [innerOrder, Stmt.stmtSlots]
  | _ => simp [innerOrder, Stmt.stmtSlots]

end Program

/-! ## Orders of held programs -/

namespace Arena

variable {a : Arena} {T : Term Mark} {P : Program} {n : NodeId} {e : ExprId}

theorem HoldsTerm.mem_postorder (hT : a.HoldsTerm T) :
    e ∈ T.postorder ↔ a.Below (.expr T.id) (.expr e) := by
  induction T using Term.induct with
  | node T ih =>
    rw [Term.postorder_eq, List.mem_append, List.mem_flatMap, List.mem_singleton]
    constructor
    · rintro (⟨x, hx, he⟩ | rfl)
      · exact .of_child (hT.child hx) ((ih x hx (hT.operand hx)).1 he)
      · exact .refl _
    · intro he
      rcases hT.eq_or_below he with h | ⟨x, hx, he⟩
      · exact .inr (NodeId.expr.inj h)
      · exact .inl ⟨x, hx, (ih x hx (hT.operand hx)).2 he⟩

/-- The order of a visit lists what is below the program. -/
theorem Holds.mem_visitOrder (hP : a.Holds P) : n ∈ P.visitOrder ↔ a.Below (.stmt P.id) n := by
  induction P using Program.induct with
  | node P ih =>
    rw [Program.visitOrder_eq, List.mem_append, List.mem_cons, List.mem_flatMap, List.mem_flatMap]
    constructor
    · rintro (⟨T, hT, hn⟩ | rfl | ⟨Q, hQ, hn⟩)
      · obtain ⟨e, he, rfl⟩ := List.mem_map.1 hn
        exact .of_child (hP.child_expr hT) ((hP.expr hT).mem_postorder.1 he)
      · exact .refl _
      · exact .of_child (hP.child_stmt hQ) ((ih Q hQ (hP.stmt hQ)).1 hn)
    · intro hn
      rcases hP.eq_or_below hn with rfl | ⟨T, hT, hn⟩ | ⟨Q, hQ, hn⟩
      · exact .inr (.inl rfl)
      · obtain ⟨e, rfl⟩ := hn.of_expr
        exact .inl ⟨T, hT, List.mem_map.2 ⟨e, (hP.expr hT).mem_postorder.2 hn, rfl⟩⟩
      · exact .inr (.inr ⟨Q, hQ, (ih Q hQ (hP.stmt hQ)).2 hn⟩)

/-- Lists of what is below several children of a node have nothing in common. -/
theorem WellFormed.pairwise_disjoint (wf : a.WellFormed) {p : NodeId} {ι : Type} {xs : List ι}
    {id : ι → NodeId} (below : ι → List NodeId) (hnodup : (xs.map id).Nodup)
    (hchild : ∀ x ∈ xs, a.Child p (id x)) (hbelow : ∀ x ∈ xs, ∀ n ∈ below x, a.Below (id x) n) :
    xs.Pairwise (Function.onFun List.Disjoint below) := by
  have hne : xs.Pairwise fun x y => id x ≠ id y := List.pairwise_map.1 hnodup
  refine hne.imp_of_mem fun hx hy hxy n hn hn' => hxy ?_
  exact wf.eq_of_below (hchild _ hx) (hchild _ hy) (hbelow _ hx n hn) (hbelow _ hy n hn')

theorem HoldsTerm.nodup_postorder (hT : a.HoldsTerm T) (wf : a.WellFormed) :
    T.postorder.Nodup := by
  induction T using Term.induct with
  | node T ih =>
    have hnodup : (T.shape.slots.flatMap Term.postorder).Nodup := by
      have hids := wf.nodup_children _ _ hT.children_eq
      refine List.nodup_flatMap.2 ⟨fun x hx => ih x hx (hT.operand hx), ?_⟩
      have hdisjoint := wf.pairwise_disjoint (fun x => x.postorder.map .expr) hids
        (fun x hx => hT.child hx) fun x hx n hn => by
          obtain ⟨e, he, rfl⟩ := List.mem_map.1 hn
          exact (hT.operand hx).mem_postorder.1 he
      refine hdisjoint.imp fun hxy e he he' => ?_
      exact hxy (List.mem_map.2 ⟨e, he, rfl⟩) (List.mem_map.2 ⟨e, he', rfl⟩)
    rw [Term.postorder_eq, List.nodup_append]
    refine ⟨hnodup, List.nodup_singleton _, ?_⟩
    intro e he e' he'
    obtain rfl := List.mem_singleton.1 he'
    rintro rfl
    obtain ⟨x, hx, he⟩ := List.mem_flatMap.1 he
    exact wf.not_below_of_child (hT.child hx) ((hT.operand hx).mem_postorder.1 he)

/-- The order of a visit lists no node twice. -/
theorem Holds.nodup_visitOrder (hP : a.Holds P) (wf : a.WellFormed) : P.visitOrder.Nodup := by
  induction P using Program.induct with
  | node P ih =>
    have hids := List.nodup_append.1 (wf.nodup_children _ _ hP.children_eq)
    have below_expr : ∀ T ∈ P.shape.exprSlots, ∀ n ∈ T.postorder.map NodeId.expr,
        a.Below (.expr T.id) n := by
      intro T hT n hn
      obtain ⟨e, he, rfl⟩ := List.mem_map.1 hn
      exact (hP.expr hT).mem_postorder.1 he
    have below_stmt : ∀ Q ∈ P.shape.stmtSlots, ∀ n ∈ Q.visitOrder, a.Below (.stmt Q.id) n :=
      fun Q hQ n => (hP.stmt hQ).mem_visitOrder.1
    have nodup_exprs : (P.shape.exprSlots.flatMap fun T => T.postorder.map NodeId.expr).Nodup := by
      refine List.nodup_flatMap.2 ⟨fun T hT => ?_, ?_⟩
      · exact ((hP.expr hT).nodup_postorder wf).map fun _ _ h => NodeId.expr.inj h
      · exact wf.pairwise_disjoint _ hids.1 (fun T hT => hP.child_expr hT) below_expr
    have nodup_stmts : (P.shape.stmtSlots.flatMap Program.visitOrder).Nodup := by
      refine List.nodup_flatMap.2 ⟨fun Q hQ => ih Q hQ (hP.stmt hQ), ?_⟩
      exact wf.pairwise_disjoint _ hids.2.1 (fun Q hQ => hP.child_stmt hQ) below_stmt
    rw [Program.visitOrder_eq, List.nodup_append, List.nodup_cons]
    refine ⟨nodup_exprs, ⟨fun h => ?_, nodup_stmts⟩, ?_⟩
    · obtain ⟨Q, hQ, hn⟩ := List.mem_flatMap.1 h
      exact wf.not_below_of_child (hP.child_stmt hQ) (below_stmt Q hQ _ hn)
    · rintro n hn m hm rfl
      obtain ⟨T, hT, hn⟩ := List.mem_flatMap.1 hn
      have hT' := below_expr T hT n hn
      rcases List.mem_cons.1 hm with rfl | hm
      · obtain ⟨e, he⟩ := hT'.of_expr
        cases he
      · obtain ⟨Q, hQ, hm⟩ := List.mem_flatMap.1 hm
        have heq := wf.eq_of_below (hP.child_expr hT) (hP.child_stmt hQ) hT' (below_stmt Q hQ n hm)
        cases heq

end Arena
end ExprTyping
