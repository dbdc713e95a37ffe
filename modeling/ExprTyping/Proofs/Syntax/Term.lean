import ExprTyping.Proofs.Syntax.Layer
import ExprTyping.Tree.Handle

/-!
# Terms and programs

A tree keeps its nodes in an arena and links them by handles. `Term` and `Program` are the same
syntax without the detour: a term is an expression with everything below it, a program a statement
with everything in it. Each node remembers the handle it has in the arena.

* `Term.fold` is the one recursion over terms: it combines the operands and their results, which
  stand in the places of the operands.
* `Term.induct` and `Program.induct` are the induction principles, with the hypothesis for every
  operand and every inner statement.
-/

namespace ExprTyping

/-- An expression with everything below it. Every node has a label. -/
structure Term (α : Type) where
  id : ExprId
  label : α
  shape : Expr (Term α)

/-- What an expression's surroundings decide about it. -/
structure Mark where
  /-- Whether the expression is what its parent calls. -/
  isCallee : Bool
  /-- Whether the expression is the outermost step of a chain with an optional link. -/
  closesChain : Bool
  deriving Inhabited

/-- A statement with everything in it. -/
structure Program where
  id : StmtId
  shape : Stmt (Term Mark) Program

namespace Term

variable {α β : Type}

instance [Inhabited α] : Inhabited (Term α) := ⟨⟨⟨0⟩, default, .constant .nil⟩⟩

/-! ## Recursion -/

mutual

/-- Combines the operands and their results at every node, from the leaves up. -/
def fold (combine : Term α → Expr (Term α × β) → β) : Term α → β
  | ⟨id, label, shape⟩ => combine ⟨id, label, shape⟩ (foldShape combine shape)
termination_by structural T => T

/-- The layer with the results of the operands beside them. -/
def foldShape (combine : Term α → Expr (Term α × β) → β) :
    Expr (Term α) → Expr (Term α × β)
  | .identifier name => .identifier name
  | .constant value => .constant value
  | .prefixed op x => .prefixed op (x, fold combine x)
  | .unary op x => .unary op (x, fold combine x)
  | .binary l op r => .binary (l, fold combine l) op (r, fold combine r)
  | .assignment l op r => .assignment (l, fold combine l) op (r, fold combine r)
  | .cast x target => .cast (x, fold combine x) target
  | .ternary c t e => .ternary (c, fold combine c) (t, fold combine t) (e, fold combine e)
  | .parens x => .parens (x, fold combine x)
  | .arrayLiteral items => .arrayLiteral (foldAll combine items)
  | .dictionaryLiteral pairs => .dictionaryLiteral (foldPairs combine pairs)
  | .member x name => .member (x, fold combine x) name
  | .subscript x i => .subscript (x, fold combine x) (i, fold combine i)
  | .call g arguments => .call (g, fold combine g) (foldArguments combine arguments)
  | .chain x => .chain (x, fold combine x)
termination_by structural k => k

/-- The results of several terms. -/
def foldAll (combine : Term α → Expr (Term α × β) → β) : List (Term α) → List (Term α × β)
  | [] => []
  | x :: rest => (x, fold combine x) :: foldAll combine rest
termination_by structural xs => xs

/-- The results of several pairs of terms. -/
def foldPairs (combine : Term α → Expr (Term α × β) → β) :
    List (Term α × Term α) → List ((Term α × β) × (Term α × β))
  | [] => []
  | (key, value) :: rest =>
    ((key, fold combine key), (value, fold combine value)) :: foldPairs combine rest
termination_by structural pairs => pairs

/-- The results of several arguments. -/
def foldArguments (combine : Term α → Expr (Term α × β) → β) :
    List (Argument (Term α)) → List (Argument (Term α × β))
  | [] => []
  | ⟨label, x⟩ :: rest => ⟨label, (x, fold combine x)⟩ :: foldArguments combine rest
termination_by structural arguments => arguments

end

section

variable (combine : Term α → Expr (Term α × β) → β)

theorem foldAll_eq (xs : List (Term α)) :
    foldAll combine xs = xs.map fun x => (x, x.fold combine) := by
  induction xs with
  | nil => rfl
  | cons x rest ih => rw [foldAll, ih, List.map_cons]

theorem foldPairs_eq (pairs : List (Term α × Term α)) :
    foldPairs combine pairs =
      pairs.map fun (k, v) => ((k, k.fold combine), (v, v.fold combine)) := by
  induction pairs with
  | nil => rfl
  | cons kv rest ih => rw [foldPairs, ih, List.map_cons]

theorem foldArguments_eq (arguments : List (Argument (Term α))) :
    foldArguments combine arguments =
      arguments.map fun a => ⟨a.label, (a.value, a.value.fold combine)⟩ := by
  induction arguments with
  | nil => rfl
  | cons a rest ih => rw [foldArguments, ih, List.map_cons]

/-- The recursion in one equation. -/
theorem fold_eq (T : Term α) :
    T.fold combine = combine T (T.shape.map fun x => (x, x.fold combine)) := by
  obtain ⟨id, label, shape⟩ := T
  rw [fold]
  congr 1
  cases shape <;> simp [foldShape, Expr.map, foldAll_eq, foldPairs_eq, foldArguments_eq]

end

theorem sizeOf_lt_of_mem_slots {T x : Term α} (h : x ∈ T.shape.slots) : sizeOf x < sizeOf T := by
  obtain ⟨id, label, shape⟩ := T
  have hlt : sizeOf x < sizeOf shape := by
    cases shape with
    | arrayLiteral items =>
      have := List.sizeOf_lt_of_mem (show x ∈ items from h)
      simp; omega
    | dictionaryLiteral pairs =>
      obtain ⟨kv, hkv, hx⟩ := List.mem_flatMap.1 h
      have := List.sizeOf_lt_of_mem hkv
      obtain ⟨k, v⟩ := kv
      simp at hx this ⊢
      rcases hx with rfl | rfl <;> omega
    | call g arguments =>
      rcases List.mem_cons.1 h with rfl | h
      · simp; omega
      · obtain ⟨a, ha, rfl⟩ := List.mem_map.1 h
        have := List.sizeOf_lt_of_mem ha
        obtain ⟨l, v⟩ := a
        simp at this ⊢; omega
    | identifier | constant => simp [Expr.slots] at h
    | prefixed | unary | binary | assignment | cast | ternary | parens | member | subscript
    | chain =>
      simp [Expr.slots] at h ⊢
      rcases h with rfl | rfl | rfl <;> omega
  simp; omega

/-- Induction over terms, with the hypothesis for every operand. -/
@[elab_as_elim]
theorem induct {motive : Term α → Prop}
    (node : ∀ T, (∀ x ∈ T.shape.slots, motive x) → motive T) (T : Term α) : motive T :=
  node T fun x _hx => induct node x
termination_by sizeOf T
decreasing_by exact sizeOf_lt_of_mem_slots _hx

end Term

namespace Program

instance : Inhabited Program := ⟨⟨⟨0⟩, .breaking⟩⟩

theorem sizeOf_lt_of_mem_slots {P Q : Program} (h : Q ∈ P.shape.stmtSlots) :
    sizeOf Q < sizeOf P := by
  obtain ⟨id, shape⟩ := P
  have hlt : sizeOf Q < sizeOf shape := by
    cases shape with
    | block body =>
      have := List.sizeOf_lt_of_mem (show Q ∈ body from h)
      simp; omega
    | conditional c body otherwise =>
      cases otherwise <;> simp [Stmt.stmtSlots] at h ⊢
      · subst h; omega
      · rcases h with rfl | rfl <;> omega
    | whileLoop c body =>
      obtain rfl := List.mem_singleton.1 h
      rw [Stmt.whileLoop.sizeOf_spec]
      omega
    | forIn pattern x body =>
      obtain rfl := List.mem_singleton.1 h
      rw [Stmt.forIn.sizeOf_spec]
      omega
    | «variables» | expressions | returning | breaking | continuing => simp [Stmt.stmtSlots] at h
  simp; omega

/-- Induction over programs, with the hypothesis for every inner statement. -/
@[elab_as_elim]
theorem induct {motive : Program → Prop}
    (node : ∀ P, (∀ Q ∈ P.shape.stmtSlots, motive Q) → motive P) (P : Program) : motive P :=
  node P fun Q _hQ => induct node Q
termination_by sizeOf P
decreasing_by exact sizeOf_lt_of_mem_slots _hQ

end Program
end ExprTyping
