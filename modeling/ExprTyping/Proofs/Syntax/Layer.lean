import ExprTyping.Tree.Stmt
import Mathlib.Data.List.Basic

/-!
# One layer of syntax: maps and visits

`Expr.map` and `Stmt.map` replace what a layer holds by its images. A monadic visit of a layer
that can fail and changes a state goes slot by slot: if every slot can be visited and each visit
leads from one invariant to the next, the whole layer can (`Expr.run_mapM`).

The invariant `I done p` of such a visit says what holds in state `p` once the slots in `done`
have been visited.
-/

namespace ExprTyping

variable {α β γ σ ε : Type}

/-! ## Stateful visits that can fail -/

/-- A visit that does not fail hands its result and state on. -/
theorem run_bind_of_run {x : StateT σ (Except ε) α} {f : α → StateT σ (Except ε) β} {a : α}
    {p q : σ} (h : x.run p = .ok (a, q)) : (x >>= f).run p = (f a).run q := by
  rw [StateT.run_bind, h]
  rfl

/-- A visit that fails hands nothing on. -/
theorem run_bind_of_error {x : StateT σ (Except ε) α} {f : α → StateT σ (Except ε) β} {e : ε}
    {p : σ} (h : x.run p = .error e) : (x >>= f).run p = .error e := by
  rw [StateT.run_bind, h]
  rfl

/-- Visiting the elements of a list one after another. -/
theorem run_mapM (visit : α → StateT σ (Except ε) β) (out : α → β)
    (I : List α → σ → Prop) (xs : List α)
    (step : ∀ done x rest, xs = done ++ x :: rest → ∀ p, I done p →
      ∃ q, (visit x).run p = .ok (out x, q) ∧ I (done ++ [x]) q)
    {p : σ} (h : I [] p) : ∃ q, (xs.mapM visit).run p = .ok (xs.map out, q) ∧ I xs q := by
  suffices ∀ rest done p, xs = done ++ rest → I done p →
      ∃ q, (rest.mapM visit).run p = .ok (rest.map out, q) ∧ I xs q from this xs [] p rfl h
  intro rest
  induction rest with
  | nil =>
    intro done p hxs hp
    rw [List.append_nil] at hxs
    exact ⟨p, rfl, hxs ▸ hp⟩
  | cons x rest ih =>
    intro done p hxs hp
    obtain ⟨q, hq, hI⟩ := step done x rest hxs p hp
    obtain ⟨r, hr, hIr⟩ := ih (done ++ [x]) q (by rw [hxs]; simp) hI
    refine ⟨r, ?_, hIr⟩
    rw [List.mapM_cons, run_bind_of_run hq, run_bind_of_run hr]
    rfl

namespace Expr

/-! ## Replacing the operands -/

/-- The expression with each operand replaced by its image. -/
def map (f : α → β) : Expr α → Expr β
  | .identifier name => .identifier name
  | .constant value => .constant value
  | .prefixed op x => .prefixed op (f x)
  | .unary op x => .unary op (f x)
  | .binary l op r => .binary (f l) op (f r)
  | .assignment l op r => .assignment (f l) op (f r)
  | .cast x target => .cast (f x) target
  | .ternary c t e => .ternary (f c) (f t) (f e)
  | .parens x => .parens (f x)
  | .arrayLiteral items => .arrayLiteral (items.map f)
  | .dictionaryLiteral pairs => .dictionaryLiteral (pairs.map fun (key, value) => (f key, f value))
  | .member x name => .member (f x) name
  | .subscript x i => .subscript (f x) (f i)
  | .call g arguments => .call (f g) (arguments.map fun a => ⟨a.label, f a.value⟩)
  | .chain x => .chain (f x)

@[simp] theorem slots_map (f : α → β) (k : Expr α) : (k.map f).slots = k.slots.map f := by
  cases k <;> simp [map, slots, List.map_flatMap, List.flatMap_map, Function.comp_def]

@[simp] theorem callee?_map (f : α → β) (k : Expr α) : (k.map f).callee? = k.callee?.map f := by
  cases k <;> rfl

@[simp] theorem receiver?_map (f : α → β) (k : Expr α) :
    (k.map f).receiver? = k.receiver?.map f := by
  cases k <;> rfl

@[simp] theorem isIdentifier_map (f : α → β) (k : Expr α) :
    (k.map f).isIdentifier = k.isIdentifier := by
  cases k <;> rfl

@[simp] theorem isMember_map (f : α → β) (k : Expr α) : (k.map f).isMember = k.isMember := by
  cases k <;> rfl

theorem map_eq_identifier {f : α → β} {k : Expr α} {name : String} :
    k.map f = .identifier name ↔ k = .identifier name := by
  cases k <;> simp [map]

theorem map_eq_cast {f : α → β} {k : Expr α} {y : β} {target : Ty} :
    k.map f = .cast y target ↔ ∃ x, k = .cast x target ∧ f x = y := by
  cases k <;> simp [map, and_comm]

theorem mem_slots_of_callee? {k : Expr α} {x : α} (h : k.callee? = some x) : x ∈ k.slots := by
  cases k <;> simp_all [callee?, slots]

theorem mem_slots_of_receiver? {k : Expr α} {x : α} (h : k.receiver? = some x) :
    x ∈ k.slots := by
  cases k <;> simp_all [receiver?, slots]

@[simp] theorem map_map (f : α → β) (g : β → γ) (k : Expr α) :
    (k.map f).map g = k.map fun x => g (f x) := by
  cases k <;> simp [map, Function.comp_def]

/-- Maps that agree on the operands give the same expression. -/
theorem map_congr {f g : α → β} {k : Expr α} (h : ∀ x ∈ k.slots, f x = g x) :
    k.map f = k.map g := by
  cases k <;> simp_all [map, slots]
  case dictionaryLiteral pairs =>
    exact fun a b hab => ⟨h a a b hab (.inl rfl), h b a b hab (.inr rfl)⟩

theorem map_id_of_slots {f : α → α} {k : Expr α} (h : ∀ x ∈ k.slots, f x = x) : k.map f = k := by
  rw [map_congr h]
  cases k <;> simp [map]

/-- Visiting an expression with replaced operands is visiting the images. -/
theorem mapM_map {m : Type → Type} [Monad m] [LawfulMonad m] (f : α → β) (visit : β → m γ)
    (k : Expr α) : (k.map f).mapM visit = k.mapM fun x => visit (f x) := by
  cases k <;> simp [map, mapM, List.mapM_map, Function.comp_def]

/-- Visiting the operands of an expression in source order. -/
theorem run_mapM (visit : α → StateT σ (Except ε) β) (out : α → β) (I : List α → σ → Prop)
    (k : Expr α)
    (step : ∀ done x rest, k.slots = done ++ x :: rest → ∀ p, I done p →
      ∃ q, (visit x).run p = .ok (out x, q) ∧ I (done ++ [x]) q)
    {p : σ} (h : I [] p) :
    ∃ q, (k.mapM visit).run p = .ok (k.map out, q) ∧ I k.slots q := by
  cases k with
  | identifier | constant => exact ⟨p, rfl, h⟩
  | prefixed _ x | unary _ x | cast x | parens x | member x | chain x =>
    obtain ⟨q, hx, hq⟩ := step [] x [] rfl p h
    refine ⟨q, ?_, hq⟩
    rw [mapM, run_bind_of_run hx]
    rfl
  | binary x _ y | assignment x _ y | subscript x y =>
    obtain ⟨q, hx, hq⟩ := step [] x [y] rfl p h
    obtain ⟨r, hy, hr⟩ := step [x] y [] rfl q hq
    refine ⟨r, ?_, hr⟩
    rw [mapM, run_bind_of_run hx, run_bind_of_run hy]
    rfl
  | ternary x y z =>
    obtain ⟨q, hx, hq⟩ := step [] x [y, z] rfl p h
    obtain ⟨r, hy, hr⟩ := step [x] y [z] rfl q hq
    obtain ⟨t, hz, ht⟩ := step [x, y] z [] rfl r hr
    refine ⟨t, ?_, ht⟩
    rw [mapM, run_bind_of_run hx, run_bind_of_run hy, run_bind_of_run hz]
    rfl
  | arrayLiteral items =>
    obtain ⟨q, hq, hI⟩ := ExprTyping.run_mapM visit out I items step h
    refine ⟨q, ?_, hI⟩
    rw [mapM, run_bind_of_run hq]
    rfl
  | dictionaryLiteral pairs =>
    -- Two visits for each pair: the invariant is read at the pair boundaries.
    obtain ⟨q, hq, hI⟩ := ExprTyping.run_mapM
      (fun (kv : α × α) => return (← visit kv.1, ← visit kv.2))
      (fun kv => (out kv.1, out kv.2))
      (fun done p => I (done.flatMap fun kv => [kv.1, kv.2]) p) pairs
      (fun done kv rest hxs p hp => by
        have hslots : (dictionaryLiteral pairs).slots =
            (done.flatMap fun kv => [kv.1, kv.2]) ++
              kv.1 :: kv.2 :: rest.flatMap fun kv => [kv.1, kv.2] := by
          rw [slots, hxs]; simp
        obtain ⟨q, hk, hq⟩ := step _ kv.1 _ hslots p hp
        obtain ⟨r, hv, hr⟩ := step _ kv.2 (rest.flatMap fun kv => [kv.1, kv.2])
          (by rw [hslots]; simp) q hq
        refine ⟨r, ?_, by simpa using hr⟩
        rw [run_bind_of_run hk, run_bind_of_run hv]
        rfl) h
    refine ⟨q, ?_, hI⟩
    rw [mapM, run_bind_of_run hq]
    rfl
  | call g arguments =>
    obtain ⟨q, hg, hq⟩ := step [] g (arguments.map (·.value)) rfl p h
    obtain ⟨r, hr, hI⟩ := ExprTyping.run_mapM
      (fun a : Argument α => return Argument.mk a.label (← visit a.value))
      (fun a => ⟨a.label, out a.value⟩)
      (fun done p => I (g :: done.map (·.value)) p) arguments
      (fun done a rest hxs p hp => by
        obtain ⟨q, ha, hq⟩ := step (g :: done.map (·.value)) a.value (rest.map (·.value))
          (by rw [slots, hxs]; simp) p hp
        refine ⟨q, ?_, by simpa using hq⟩
        rw [run_bind_of_run ha]
        rfl) hq
    refine ⟨r, ?_, hI⟩
    rw [mapM, run_bind_of_run hg, run_bind_of_run hr]
    rfl

end Expr

/-- The declaration with another initializer. -/
def VariableDeclaration.map (f : α → β) (d : VariableDeclaration α) : VariableDeclaration β :=
  ⟨d.name, d.type, d.initializer.map f, d.isConstant⟩

namespace Stmt

variable {τ τ' τ'' : Type}

/-- The statement with each expression and each inner statement replaced by its image. -/
def map (f : α → β) (g : τ → τ') : Stmt α τ → Stmt β τ'
  | .block body => .block (body.map g)
  | .conditional c body otherwise => .conditional (f c) (g body) (otherwise.map g)
  | .whileLoop c body => .whileLoop (f c) (g body)
  | .forIn pattern x body => .forIn pattern (f x) (g body)
  | .variables declarations => .variables (declarations.map (·.map f))
  | .expressions items => .expressions (items.map f)
  | .returning value => .returning (value.map f)
  | .breaking => .breaking
  | .continuing => .continuing

@[simp] theorem exprSlots_map (f : α → β) (g : τ → τ') (k : Stmt α τ) :
    (k.map f g).exprSlots = k.exprSlots.map f := by
  cases k <;> simp [map, exprSlots, VariableDeclaration.map, List.map_filterMap,
    List.filterMap_map, Option.toList_map]

@[simp] theorem stmtSlots_map (f : α → β) (g : τ → τ') (k : Stmt α τ) :
    (k.map f g).stmtSlots = k.stmtSlots.map g := by
  cases k <;> simp [map, stmtSlots, Option.toList_map]

@[simp] theorem opensScope_map (f : α → β) (g : τ → τ') (k : Stmt α τ) :
    (k.map f g).opensScope = k.opensScope := by
  cases k <;> rfl

@[simp] theorem map_map (f : α → β) (f' : β → γ) (g : τ → τ') (g' : τ' → τ'') (k : Stmt α τ) :
    (k.map f g).map f' g' = k.map (fun x => f' (f x)) fun s => g' (g s) := by
  cases k <;> simp [map, VariableDeclaration.map, Function.comp_def]

/-- Maps that agree on what is directly inside give the same statement. -/
theorem map_congr {f f' : α → β} {g g' : τ → τ'} {k : Stmt α τ}
    (hf : ∀ x ∈ k.exprSlots, f x = f' x) (hg : ∀ s ∈ k.stmtSlots, g s = g' s) :
    k.map f g = k.map f' g' := by
  cases k with
  | «variables» declarations =>
    rw [map, map]
    congr 1
    refine List.map_congr_left fun d hd => ?_
    obtain ⟨name, type, initializer, isConstant⟩ := d
    cases initializer with
    | none => rfl
    | some x =>
      have hx : f x = f' x := hf x (List.mem_filterMap.2 ⟨_, hd, rfl⟩)
      simp [VariableDeclaration.map, hx]
  | conditional c body otherwise => cases otherwise <;> simp_all [map, exprSlots, stmtSlots]
  | returning value => cases value <;> simp_all [map, exprSlots]
  | _ => simp_all [map, exprSlots, stmtSlots]

theorem map_id_of_slots {f : α → α} {g : τ → τ} {k : Stmt α τ} (hf : ∀ x ∈ k.exprSlots, f x = x)
    (hg : ∀ s ∈ k.stmtSlots, g s = s) : k.map f g = k := by
  rw [map_congr hf hg]
  cases k <;> simp [map, VariableDeclaration.map]

end Stmt

theorem forM_toList {m : Type → Type} [Monad m] [LawfulMonad m] (visit : α → m Unit)
    (o : Option α) : o.toList.forM visit = o.forM visit := by
  cases o with
  | none => rfl
  | some x => exact bind_pure (visit x)

/-- Visiting the initializers of several declarations, one declaration after another. -/
theorem forM_initializers {m : Type → Type} [Monad m] [LawfulMonad m] (visit : α → m Unit)
    (declarations : List (VariableDeclaration α)) :
    (declarations.forM fun d => d.initializer.forM visit) =
      (declarations.filterMap (·.initializer)).forM visit := by
  induction declarations with
  | nil => rfl
  | cons d rest ih =>
    show (d.initializer.forM visit >>= fun _ => rest.forM _) = _
    rw [ih, List.filterMap_cons]
    cases d.initializer with
    | none => exact pure_bind _ _
    | some x => rfl

end ExprTyping
