import ExprTyping.Proofs.Syntax.Layer

/-!
# Replacing one slot of a layer

`Expr.replaceFirst?` and `Stmt.replaceFirst?` go through the slots of a layer with a switch that
says whether the replacement has been made. A visit of a layer is a visit of the list of its slots
(`Expr.slots_mapM`, `Stmt.exprSlots_mapExprM`), so that both come down to `List.replace`.

* They fail exactly if no slot holds what is to be replaced.
* Otherwise the first slot that holds it gets the replacement, and no other slot changes.
* The form of the layer, which is the layer without its slots, stays.

Form and slots determine a layer, so that this says all about the result
(`Expr.replaceFirst?_eq_some_iff`, `Stmt.replaceFirst?_eq_some_iff`). If nothing stands in two slots,
it is the layer with its slots mapped, and a replacement by something new can be undone.
-/

namespace ExprTyping

/-! ## Lists -/

section

variable {α : Type} [DecidableEq α] {old new x : α} {xs : List α}

theorem run_mapM_swapFirst (old new : α) (xs : List α) (met : Bool) :
    (xs.mapM (swapFirst old new)).run met =
      if met then (xs, true) else (xs.replace old new, decide (old ∈ xs)) := by
  induction xs generalizing met with
  | nil => cases met <;> rfl
  | cons x rest ih =>
    have hstep : ((x :: rest).mapM (swapFirst old new)).run met =
        ((swapFirst old new x met).1 ::
          ((rest.mapM (swapFirst old new)).run (swapFirst old new x met).2).1,
        ((rest.mapM (swapFirst old new)).run (swapFirst old new x met).2).2) := by
      rw [List.mapM_cons]
      rfl
    rw [hstep, ih]
    cases met with
    | true => rfl
    | false =>
      by_cases h : x = old
      · subst h
        simp [swapFirst]
      · have hne : (old == x) = false := beq_eq_false_iff_ne.2 (Ne.symm h)
        simp [swapFirst, h, Ne.symm h, List.replace_cons, hne]

/-- What is replaced is the first occurrence. -/
theorem exists_replace_eq (hold : old ∈ xs) (new : α) : ∃ before after,
    xs = before ++ old :: after ∧ old ∉ before ∧ xs.replace old new = before ++ new :: after := by
  obtain ⟨before, after, rfl, hbefore⟩ := List.eq_append_cons_of_mem hold
  refine ⟨before, after, rfl, hbefore, ?_⟩
  rw [List.replace_append, if_neg hbefore, List.replace_cons_self]

theorem mem_replace_self (hold : old ∈ xs) : new ∈ xs.replace old new := by
  obtain ⟨before, after, -, -, heq⟩ := exists_replace_eq hold new
  simp [heq]

/-- Other elements stay, also in a list with repetitions. -/
theorem mem_replace_of_ne (hold : old ∈ xs) (hx : x ∈ xs) (hne : x ≠ old) :
    x ∈ xs.replace old new := by
  obtain ⟨before, after, rfl, -, heq⟩ := exists_replace_eq hold new
  simp only [List.mem_append, List.mem_cons, hne, false_or] at hx
  simp only [heq, List.mem_append, List.mem_cons]
  exact hx.imp_right .inr

theorem eq_or_mem_of_mem_replace (hold : old ∈ xs) (hx : x ∈ xs.replace old new) :
    x = new ∨ x ∈ xs := by
  obtain ⟨before, after, rfl, -, heq⟩ := exists_replace_eq hold new
  simp only [heq, List.mem_append, List.mem_cons] at hx ⊢
  rcases hx with hx | hx | hx
  · exact .inr (.inl hx)
  · exact .inl hx
  · exact .inr (.inr (.inr hx))

/-- In a list without repetitions, replacing an element changes nothing but that element. -/
theorem mem_replace_iff (hnodup : xs.Nodup) (hold : old ∈ xs) :
    x ∈ xs.replace old new ↔ x = new ∨ x ≠ old ∧ x ∈ xs := by
  obtain ⟨before, after, rfl, hbefore, heq⟩ := exists_replace_eq hold new
  have hafter : old ∉ after := fun h => by simp [List.nodup_append, h] at hnodup
  simp only [heq, List.mem_append, List.mem_cons]
  constructor
  · rintro (h | h | h)
    · exact .inr ⟨fun hx => hbefore (hx ▸ h), .inl h⟩
    · exact .inl h
    · exact .inr ⟨fun hx => hafter (hx ▸ h), .inr (.inr h)⟩
  · rintro (h | ⟨hx, h | h | h⟩)
    · exact .inr (.inl h)
    · exact .inl h
    · exact absurd h hx
    · exact .inr (.inr h)

theorem nodup_replace (hnodup : xs.Nodup) (hold : old ∈ xs) (hnew : new ∈ xs → new = old) :
    (xs.replace old new).Nodup := by
  obtain ⟨before, after, rfl, -, heq⟩ := exists_replace_eq hold new
  rw [heq]
  by_cases h : new = old
  · rwa [h]
  · have hfresh : new ∉ before ++ old :: after := fun hmem => h (hnew hmem)
    simp only [List.mem_append, List.mem_cons, not_or] at hfresh
    rw [List.nodup_append] at hnodup ⊢
    obtain ⟨hb, ha, hdisjoint⟩ := hnodup
    refine ⟨hb, List.nodup_cons.2 ⟨hfresh.2.2, (List.nodup_cons.1 ha).2⟩, fun x hx y hy => ?_⟩
    rcases List.mem_cons.1 hy with rfl | hy
    · rintro rfl
      exact hfresh.1 hx
    · exact hdisjoint x hx y (List.mem_cons_of_mem _ hy)

/-- A replacement by something new can be undone. -/
theorem replace_replace (hold : old ∈ xs) (hnew : new ∉ xs) :
    (xs.replace old new).replace new old = xs := by
  obtain ⟨before, after, rfl, -, heq⟩ := exists_replace_eq hold new
  have hbefore : new ∉ before := fun h => hnew (List.mem_append_left _ h)
  rw [heq, List.replace_append, if_neg hbefore, List.replace_cons_self]

theorem replace_map {β : Type} [DecidableEq β] {f : α → β} (hf : Function.Injective f)
    (old new : α) (xs : List α) :
    (xs.map f).replace (f old) (f new) = (xs.replace old new).map f := by
  induction xs with
  | nil => rfl
  | cons x rest ih =>
    by_cases h : old = x
    · rw [h, List.map_cons, List.replace_cons_self, List.replace_cons_self, List.map_cons]
    · rw [List.map_cons, List.replace_cons, List.replace_cons,
        beq_eq_false_iff_ne.2 h, beq_eq_false_iff_ne.2 fun heq => h (hf heq)]
      simp only [ih, List.map_cons]

theorem replace_eq_map (hnodup : xs.Nodup) (new : α) :
    xs.replace old new = xs.map fun x => if x = old then new else x := by
  induction xs with
  | nil => rfl
  | cons x rest ih =>
    obtain ⟨hx, hrest⟩ := List.nodup_cons.1 hnodup
    rw [List.replace_cons, List.map_cons]
    by_cases h : x = old
    · subst h
      have hsame : rest.map (fun y => if y = x then new else y) = rest.map fun y => y :=
        List.map_congr_left fun y hy => if_neg fun heq : y = x => hx (heq ▸ hy)
      rw [beq_self_eq_true, if_pos rfl, hsame, List.map_id']
    · rw [beq_eq_false_iff_ne.2 (Ne.symm h), if_neg h, ← ih hrest]

end

section

variable {α β γ : Type}

/-- Lists are equal if they have the same images under two maps that together are injective. -/
theorem eq_of_map_eq {f : α → β} {g : α → γ} (h : ∀ x y, f x = f y → g x = g y → x = y)
    {xs ys : List α} (hf : xs.map f = ys.map f) (hg : xs.map g = ys.map g) : xs = ys := by
  induction xs generalizing ys with
  | nil => simpa using hf.symm
  | cons x rest ih =>
    obtain ⟨y, ys, rfl⟩ : ∃ y ys', ys = y :: ys' := by
      cases ys with
      | nil => simp at hf
      | cons y ys => exact ⟨y, ys, rfl⟩
    rw [List.map_cons, List.map_cons, List.cons.injEq] at hf hg
    rw [h x y hf.1 hg.1, ih hf.2 hg.2]

/-- What all visits of elements keep, a visit of the list keeps. -/
theorem map_mapM_eq {m : Type → Type} [Monad m] [LawfulMonad m] (visit : α → m β) (f : α → γ)
    (g : β → γ) (h : ∀ x, g <$> visit x = (fun _ => f x) <$> visit x) (xs : List α) :
    List.map g <$> xs.mapM visit = (fun _ => xs.map f) <$> xs.mapM visit := by
  induction xs with
  | nil => simp
  | cons x rest ih =>
    have hcons : List.map g <$> (x :: rest).mapM visit =
        (g <$> visit x) >>= fun c => (List.map g <$> rest.mapM visit) >>= fun cs =>
          pure (c :: cs) := by
      simp
    rw [hcons, h, ih]
    simp

end

/-! ## Expressions -/

namespace Expr

variable {α β : Type}

/-- Visiting an expression is visiting its operands. -/
theorem slots_mapM {m : Type → Type} [Monad m] [LawfulMonad m] (visit : α → m β) (k : Expr α) :
    slots <$> k.mapM visit = k.slots.mapM visit := by
  cases k with
  | dictionaryLiteral pairs =>
    simp only [mapM, slots, map_bind, map_pure]
    induction pairs with
    | nil => simp
    | cons kv rest ih =>
      obtain ⟨key, value⟩ := kv
      simp only [List.mapM_cons, List.flatMap_cons, List.cons_append, List.nil_append, ← ih]
      simp
  | call f arguments =>
    have harguments : ∀ arguments : List (Argument α),
        (fun arguments => arguments.map (·.value)) <$> arguments.mapM
          (fun a => do return (⟨a.label, ← visit a.value⟩ : Argument β)) =
        (arguments.map (·.value)).mapM visit := by
      intro arguments
      induction arguments with
      | nil => simp
      | cons a rest ih =>
        simp only [List.mapM_cons, List.map_cons, ← ih]
        simp
    simp only [slots, List.mapM_cons, ← harguments]
    simp [mapM, slots]
  | _ => simp [mapM, slots]

/-- An expression without its operands. -/
def form (k : Expr α) : Expr Unit := k.map fun _ => ()

@[simp] theorem form_map (f : α → β) (k : Expr α) : (k.map f).form = k.form := by
  rw [form, form, map_map]

/-- An expression is determined by its form and its operands. -/
theorem eq_of_form {k k' : Expr α} (hform : k.form = k'.form)
    (hslots : k.slots = k'.slots) : k = k' := by
  cases k with
  | dictionaryLiteral pairs =>
    cases k' with
    | dictionaryLiteral pairs' =>
      congr 1
      clear hform
      induction pairs generalizing pairs' with
      | nil => cases pairs' <;> simp_all [slots]
      | cons kv rest ih =>
        cases pairs' with
        | nil => simp [slots] at hslots
        | cons kv' rest' =>
          simp only [slots, List.flatMap_cons, List.cons_append, List.nil_append,
            List.cons.injEq] at hslots
          rw [Prod.ext hslots.1 hslots.2.1, ih rest' hslots.2.2]
    | _ => cases hform
  | call f arguments =>
    cases k' with
    | call f' arguments' =>
      obtain ⟨rfl, hvalues⟩ := List.cons.inj hslots
      congr 1
      refine eq_of_map_eq (fun x y hlabel hvalue => ?_) (Expr.call.inj hform).2 hvalues
      obtain ⟨l, v⟩ := x
      obtain ⟨l', v'⟩ := y
      simp_all
    | _ => cases hform
  | _ => cases k' <;> simp_all [form, map, slots]

theorem form_mapM {m : Type → Type} [Monad m] [LawfulMonad m] (visit : α → m β) (k : Expr α) :
    form <$> k.mapM visit = (fun _ => k.form) <$> k.mapM visit := by
  cases k with
  | arrayLiteral items =>
    have h := congrArg (Functor.map arrayLiteral)
      (map_mapM_eq visit (fun _ => ()) (fun _ => ()) (fun x => by simp) items)
    simpa [mapM, form, map] using h
  | dictionaryLiteral pairs =>
    have h := congrArg (Functor.map dictionaryLiteral)
      (map_mapM_eq (fun kv : α × α => do return (← visit kv.1, ← visit kv.2)) (fun _ => ((), ()))
        (fun _ => ((), ())) (fun kv => by simp) pairs)
    simpa [mapM, form, map] using h
  | call f arguments =>
    have h := congrArg (Functor.map (call ()))
      (map_mapM_eq (fun a : Argument α => do return (⟨a.label, ← visit a.value⟩ : Argument β))
        (fun a => ⟨a.label, ()⟩) (fun a => ⟨a.label, ()⟩) (fun a => by simp) arguments)
    simp only [Functor.map_map, bind_pure_comp] at h
    simp [mapM, form, map, h]
  | _ => simp [mapM, form, map]

variable [DecidableEq α] {old new : α} {k k' : Expr α}

theorem run_mapM_slots (old new : α) (k : Expr α) :
    (((k.mapM (swapFirst old new)).run false).1.slots,
        ((k.mapM (swapFirst old new)).run false).2) =
      (k.slots.replace old new, decide (old ∈ k.slots)) := by
  have h := congrArg (fun visit : StateM Bool (List α) => visit.run false)
    (k.slots_mapM (swapFirst old new))
  rw [run_mapM_swapFirst] at h
  exact h

theorem run_mapM_form (old new : α) (k : Expr α) :
    ((k.mapM (swapFirst old new)).run false).1.form = k.form :=
  congrArg (fun visit : StateM Bool (Expr Unit) => (visit.run false).1)
    (k.form_mapM (swapFirst old new))

/-- Without an operand to replace, the visit changes nothing. -/
theorem run_mapM_of_not_mem (hold : old ∉ k.slots) (new : α) :
    (k.mapM (swapFirst old new)).run false = (k, false) := by
  obtain ⟨hslots, hmet⟩ := Prod.mk.inj (run_mapM_slots old new k)
  rw [List.replace_of_not_mem hold] at hslots
  rw [decide_eq_false hold] at hmet
  exact Prod.ext (eq_of_form (run_mapM_form old new k) hslots) hmet

/-- A replacement changes the first operand that is to be replaced, and nothing else. -/
theorem replaceFirst?_eq_some_iff : k.replaceFirst? old new = some k' ↔
    old ∈ k.slots ∧ k'.form = k.form ∧ k'.slots = k.slots.replace old new := by
  obtain ⟨hslots, hmet⟩ := Prod.mk.inj (run_mapM_slots old new k)
  have hform := run_mapM_form old new k
  rw [replaceFirst?]
  cases hrun : (k.mapM (swapFirst old new)).run false with
  | mk replaced met =>
    rw [hrun] at hslots hmet hform
    constructor
    · intro h
      cases met with
      | false => cases h
      | true =>
        cases h
        exact ⟨of_decide_eq_true hmet.symm, hform, hslots⟩
    · rintro ⟨hold, hform', hslots'⟩
      obtain rfl : met = true := hmet.trans (decide_eq_true hold)
      exact congrArg some (eq_of_form (hform.trans hform'.symm) (hslots.trans hslots'.symm))

theorem replaceFirst?_eq_none : k.replaceFirst? old new = none ↔ old ∉ k.slots := by
  constructor
  · intro h hold
    obtain ⟨-, hmet⟩ := Prod.mk.inj (run_mapM_slots old new k)
    rw [replaceFirst?] at h
    cases hrun : (k.mapM (swapFirst old new)).run false with
    | mk replaced met =>
      rw [hrun] at h hmet
      obtain rfl : met = true := hmet.trans (decide_eq_true hold)
      cases h
  · intro hold
    rw [replaceFirst?, run_mapM_of_not_mem hold]

theorem slots_of_replaceFirst? (h : k.replaceFirst? old new = some k') :
    k'.slots = k.slots.replace old new := (replaceFirst?_eq_some_iff.1 h).2.2

/-- If no operand stands in two slots, replacing one is mapping it. -/
theorem replaceFirst?_eq_map (hold : old ∈ k.slots) (hnodup : k.slots.Nodup) (new : α) :
    k.replaceFirst? old new = some (k.map fun x => if x = old then new else x) := by
  refine replaceFirst?_eq_some_iff.2 ⟨hold, form_map _ k, ?_⟩
  rw [slots_map, replace_eq_map hnodup]

/-- A replacement by a new operand can be undone. -/
theorem replaceFirst?_undo (hnew : new ∉ k.slots) (h : k.replaceFirst? old new = some k') :
    k'.replaceFirst? new old = some k := by
  obtain ⟨hold, hform, hslots⟩ := replaceFirst?_eq_some_iff.1 h
  refine replaceFirst?_eq_some_iff.2 ⟨?_, hform.symm, ?_⟩
  · rw [hslots]
    exact mem_replace_self hold
  · rw [hslots, replace_replace hold hnew]

end Expr

/-! ## Statements -/

/-- Declarations are determined by their forms and their initializers. -/
theorem VariableDeclaration.eq_of_form {α : Type} {ds ds' : List (VariableDeclaration α)}
    (hform : ds.map (·.map fun _ => ()) = ds'.map (·.map fun _ => ()))
    (hslots : ds.filterMap (·.initializer) = ds'.filterMap (·.initializer)) : ds = ds' := by
  induction ds generalizing ds' with
  | nil => simpa using hform.symm
  | cons d rest ih =>
    cases ds' with
    | nil => simp at hform
    | cons d' rest' =>
      obtain ⟨name, type, initializer, isConstant⟩ := d
      obtain ⟨name', type', initializer', isConstant'⟩ := d'
      rw [List.map_cons, List.map_cons, List.cons.injEq] at hform
      have hrest := ih hform.2
      cases initializer <;> cases initializer' <;> simp_all [VariableDeclaration.map]

namespace Stmt

variable {α β τ : Type}

/-- Visiting the expressions of a statement, in the order of its slots. -/
theorem exprSlots_mapExprM {m : Type → Type} [Monad m] [LawfulMonad m] (visit : α → m β)
    (k : Stmt α τ) : exprSlots <$> k.mapExprM visit = k.exprSlots.mapM visit := by
  have hdeclarations : ∀ declarations : List (VariableDeclaration α),
      (fun declarations => declarations.filterMap (·.initializer)) <$> declarations.mapM
        (fun d => do return { d with initializer := ← d.initializer.mapM visit }) =
      (declarations.filterMap (·.initializer)).mapM visit := by
    intro declarations
    induction declarations with
    | nil => simp
    | cons d rest ih =>
      obtain ⟨name, type, initializer, isConstant⟩ := d
      cases initializer with
      | none =>
        simp only [List.filterMap_cons, ← ih]
        simp
      | some x =>
        simp only [List.filterMap_cons, List.mapM_cons, ← ih]
        simp
  cases k with
  | «variables» declarations =>
    simp only [exprSlots, ← hdeclarations]
    simp [mapExprM, exprSlots]
  | returning value => cases value <;> simp [mapExprM, exprSlots]
  | _ => simp [mapExprM, exprSlots]

/-- A statement without its expressions. -/
def form (k : Stmt α τ) : Stmt Unit τ := k.map (fun _ => ()) id

@[simp] theorem form_map (f : α → β) (k : Stmt α τ) : (k.map f id).form = k.form := by
  rw [form, form, map_map]
  rfl

/-- The inner statements belong to the form. -/
theorem stmtSlots_of_form {k k' : Stmt α τ} (hform : k'.form = k.form) :
    k'.stmtSlots = k.stmtSlots := by
  simpa [form] using congrArg stmtSlots hform

/-- A statement is determined by its form and its expressions. -/
theorem eq_of_form {k k' : Stmt α τ} (hform : k.form = k'.form)
    (hslots : k.exprSlots = k'.exprSlots) : k = k' := by
  cases k with
  | «variables» declarations =>
    cases k' with
    | «variables» declarations' =>
      congr 1
      exact VariableDeclaration.eq_of_form (Stmt.variables.inj hform) hslots
    | _ => cases hform
  | returning value =>
    cases k' with
    | returning value' => cases value <;> cases value' <;> simp_all [exprSlots]
    | _ => cases hform
  | _ => cases k' <;> simp_all [form, map, exprSlots]

theorem form_mapExprM {m : Type → Type} [Monad m] [LawfulMonad m] (visit : α → m β)
    (k : Stmt α τ) : form <$> k.mapExprM visit = (fun _ => k.form) <$> k.mapExprM visit := by
  cases k with
  | «variables» declarations =>
    have h := congrArg (Functor.map (f := m) fun ds => (Stmt.variables ds : Stmt Unit τ))
      (map_mapM_eq
        (fun d : VariableDeclaration α => do
          return ({ d with initializer := ← d.initializer.mapM visit } : VariableDeclaration β))
        (·.map fun _ => ()) (·.map fun _ => ())
        (fun d => by cases hd : d.initializer <;> simp [VariableDeclaration.map, hd]) declarations)
    simpa [mapExprM, form, map] using h
  | expressions items =>
    have h := congrArg (Functor.map (f := m) fun xs => (Stmt.expressions xs : Stmt Unit τ))
      (map_mapM_eq visit (fun _ => ()) (fun _ => ()) (fun x => by simp) items)
    simpa [mapExprM, form, map] using h
  | returning value => cases value <;> simp [mapExprM, form, map]
  | _ => simp [mapExprM, form, map]

variable [DecidableEq α] {old new : α} {k k' : Stmt α τ}

theorem run_mapExprM_slots (old new : α) (k : Stmt α τ) :
    (((k.mapExprM (swapFirst old new)).run false).1.exprSlots,
        ((k.mapExprM (swapFirst old new)).run false).2) =
      (k.exprSlots.replace old new, decide (old ∈ k.exprSlots)) := by
  have h := congrArg (fun visit : StateM Bool (List α) => visit.run false)
    (k.exprSlots_mapExprM (swapFirst old new))
  rw [run_mapM_swapFirst] at h
  exact h

theorem run_mapExprM_form (old new : α) (k : Stmt α τ) :
    ((k.mapExprM (swapFirst old new)).run false).1.form = k.form :=
  congrArg (fun visit : StateM Bool (Stmt Unit τ) => (visit.run false).1)
    (k.form_mapExprM (swapFirst old new))

/-- Without an expression to replace, the visit changes nothing. -/
theorem run_mapExprM_of_not_mem (hold : old ∉ k.exprSlots) (new : α) :
    (k.mapExprM (swapFirst old new)).run false = (k, false) := by
  obtain ⟨hslots, hmet⟩ := Prod.mk.inj (run_mapExprM_slots old new k)
  rw [List.replace_of_not_mem hold] at hslots
  rw [decide_eq_false hold] at hmet
  exact Prod.ext (eq_of_form (run_mapExprM_form old new k) hslots) hmet

/-- A replacement changes the first expression that is to be replaced, and nothing else. -/
theorem replaceFirst?_eq_some_iff : k.replaceFirst? old new = some k' ↔
    old ∈ k.exprSlots ∧ k'.form = k.form ∧ k'.exprSlots = k.exprSlots.replace old new := by
  obtain ⟨hslots, hmet⟩ := Prod.mk.inj (run_mapExprM_slots old new k)
  have hform := run_mapExprM_form old new k
  rw [replaceFirst?]
  cases hrun : (k.mapExprM (swapFirst old new)).run false with
  | mk replaced met =>
    rw [hrun] at hslots hmet hform
    constructor
    · intro h
      cases met with
      | false => cases h
      | true =>
        cases h
        exact ⟨of_decide_eq_true hmet.symm, hform, hslots⟩
    · rintro ⟨hold, hform', hslots'⟩
      obtain rfl : met = true := hmet.trans (decide_eq_true hold)
      exact congrArg some (eq_of_form (hform.trans hform'.symm) (hslots.trans hslots'.symm))

theorem replaceFirst?_eq_none : k.replaceFirst? old new = none ↔ old ∉ k.exprSlots := by
  constructor
  · intro h hold
    obtain ⟨-, hmet⟩ := Prod.mk.inj (run_mapExprM_slots old new k)
    rw [replaceFirst?] at h
    cases hrun : (k.mapExprM (swapFirst old new)).run false with
    | mk replaced met =>
      rw [hrun] at h hmet
      obtain rfl : met = true := hmet.trans (decide_eq_true hold)
      cases h
  · intro hold
    rw [replaceFirst?, run_mapExprM_of_not_mem hold]

/-- The first expression that is replaced, and no other, changes; no inner statement does. -/
theorem slots_of_replaceFirst? (h : k.replaceFirst? old new = some k') :
    k'.exprSlots = k.exprSlots.replace old new ∧ k'.stmtSlots = k.stmtSlots := by
  obtain ⟨-, hform, hslots⟩ := replaceFirst?_eq_some_iff.1 h
  exact ⟨hslots, stmtSlots_of_form hform⟩

/-- If no expression stands in two slots, replacing one is mapping it. -/
theorem replaceFirst?_eq_map (hold : old ∈ k.exprSlots) (hnodup : k.exprSlots.Nodup) (new : α) :
    k.replaceFirst? old new = some (k.map (fun x => if x = old then new else x) id) := by
  refine replaceFirst?_eq_some_iff.2 ⟨hold, form_map _ k, ?_⟩
  rw [exprSlots_map, replace_eq_map hnodup]

/-- A replacement by a new expression can be undone. -/
theorem replaceFirst?_undo (hnew : new ∉ k.exprSlots) (h : k.replaceFirst? old new = some k') :
    k'.replaceFirst? new old = some k := by
  obtain ⟨hold, hform, hslots⟩ := replaceFirst?_eq_some_iff.1 h
  refine replaceFirst?_eq_some_iff.2 ⟨?_, hform.symm, ?_⟩
  · rw [hslots]
    exact mem_replace_self hold
  · rw [hslots, replace_replace hold hnew]

end Stmt
end ExprTyping
