import ExprTyping.Proofs.Lexical.Legs
import ExprTyping.Proofs.Lexical.Redeclaration

/-!
# What is declared stays declared

Names are only ever added to a frame: whatever is declared in an environment at some point of a walk
is still declared when the walk is over. `Env.DeclaredIn` compares two environments by the names
that are declared in them, not by what these mean, since a name may be declared once more later.

* A leg leaves no names that the walk it belongs to does not leave inside its frame
  (`Lexicon.outside_declaredIn`), and neither does the program's own declaration
  (`Lexicon.own_declaredIn`).
* The scope that a walk finds for its program is the innermost one that it leaves inside
  (`Lexicon.scopes_take`).
-/

namespace ExprTyping

/-! ## Environments with more names -/

namespace Env

variable {env env' env'' : Env} {name : String} {ds ds' : List Definition}

/-- Every name that is declared in `env` is declared in `env'`. -/
def DeclaredIn (env env' : Env) : Prop := ∀ name, env.find? name ≠ none → env'.find? name ≠ none

theorem DeclaredIn.refl (env : Env) : env.DeclaredIn env := fun _ h => h

theorem DeclaredIn.trans (h : env.DeclaredIn env') (h' : env'.DeclaredIn env'') :
    env.DeclaredIn env'' := fun name hname => h' name (h name hname)

theorem find?_cons_ne_none {scope : Scope} :
    Env.find? (scope :: env) name ≠ none ↔ scope.find? name ≠ none ∨ env.find? name ≠ none := by
  rw [Env.find?, Env.find?, List.findSome?_cons]
  cases scope.find? name <;> simp

theorem DeclaredIn.cons (h : env.DeclaredIn env') (scope : Scope) :
    Env.DeclaredIn (scope :: env) (scope :: env') := by
  intro name hname
  exact find?_cons_ne_none.2 ((find?_cons_ne_none.1 hname).imp_right (h name))

end Env

theorem Scope.find?_recordAll_ne_none_iff {scope : Scope} {name : String} (ds : List Definition) :
    (ds.foldl record scope).find? name ≠ none ↔
      scope.find? name ≠ none ∨ ∃ d ∈ ds, d.name = name := by
  refine ⟨fun h => ?_, find?_recordAll_ne_none ds⟩
  induction ds generalizing scope with
  | nil => exact .inl h
  | cons d rest ih =>
    rcases ih h with h | ⟨x, hx, rfl⟩
    · by_cases hd : name = d.name
      · exact .inr ⟨d, List.mem_cons_self, hd.symm⟩
      · exact .inl (find?_record_of_ne hd ▸ h)
    · exact .inr ⟨x, List.mem_cons_of_mem d hx, rfl⟩

namespace Env

variable {env : Env} {ds ds' : List Definition}

theorem declare_declaredIn_declare (h : ds ⊆ ds') (env : Env) :
    (env.declare ds).DeclaredIn (env.declare ds') := by
  cases env with
  | nil => exact .refl _
  | cons scope rest =>
    intro name hname
    rw [declare, find?_cons_ne_none, Scope.find?_recordAll_ne_none_iff] at hname ⊢
    rcases hname with (hscope | ⟨d, hd, heq⟩) | hrest
    · exact .inl (.inl hscope)
    · exact .inl (.inr ⟨d, h hd, heq⟩)
    · exact .inr hrest

theorem declaredIn_declare (env : Env) (ds : List Definition) :
    env.DeclaredIn (env.declare ds) := by
  have h := declare_declaredIn_declare (List.nil_subset ds) env
  rwa [declare_nil] at h

end Env

/-! ## What legs leave -/

/-- The environment that a walk leaves. -/
def Leg.outside (opens : Program → Bool) (c : Leg) : Env :=
  c.env.declare (c.program.declares opens)

namespace Lexicon

variable (L : Lexicon) (opens : Program → Bool)

/-- The environment that a walk leaves inside its frame. -/
def closing (c : Leg) : Env := (c.inside opens).declare (L.inner opens c.program (c.inside opens))

theorem closing_eq (c : Leg) :
    (L.walkInside opens c.program.id c.program.shape (c.inside opens)).2 = L.closing opens c :=
  L.walkInside_env opens (fun Q _ initial env => L.walk_env opens Q initial env) (c.inside opens)

variable {L opens} {c d : Leg}

theorem outside_of_legsAll {Ps : List Program} {env : Env} (h : d ∈ legsAll opens Ps env) :
    (d.outside opens).DeclaredIn (env.declare (Ps.flatMap (Program.declares opens))) := by
  induction Ps generalizing env with
  | nil => cases h
  | cons P rest ih =>
    rw [List.flatMap_cons]
    rcases List.mem_cons.1 h with rfl | h
    · exact Env.declare_declaredIn_declare (List.subset_append_left _ _) env
    · rw [Env.declare_append]
      exact ih h

theorem inner_of_not_forIn {P : Program} (env : Env)
    (h : ∀ pattern x body, P.shape ≠ .forIn pattern x body) :
    L.inner opens P env =
      P.shape.declared ++ P.shape.stmtSlots.flatMap (Program.declares opens) := by
  unfold inner
  split
  · exact absurd ‹_› (h _ _ _)
  · rfl

/-- A leg leaves no names that the walk it belongs to does not leave inside its frame. -/
theorem outside_declaredIn (h : d ∈ L.legs opens c) :
    (d.outside opens).DeclaredIn (L.closing opens c) := by
  by_cases hfor : ∃ pattern x body, c.program.shape = .forIn pattern x body
  · obtain ⟨pattern, x, body, hshape⟩ := hfor
    simp only [legs, closing, inner, hshape] at h ⊢
    split_ifs at h ⊢ with hbody hopens <;> obtain rfl := List.mem_singleton.1 h
    · rw [Leg.outside, Program.declares_of_opens opens hbody]
      exact .refl _
    · rw [Leg.outside, Env.declare_append]
      exact .refl _
    · exact .refl _
  · have hfor : ∀ pattern x body, c.program.shape ≠ .forIn pattern x body :=
      fun pattern x body hshape => hfor ⟨pattern, x, body, hshape⟩
    rw [L.legs_eq_legsAll opens hfor] at h
    rw [closing, inner_of_not_forIn _ hfor]
    exact (outside_of_legsAll h).trans
      (Env.declare_declaredIn_declare (List.subset_append_right _ _) _)

/-- The names that the program's own expressions are typed with are left inside its frame. -/
theorem own_declaredIn (L : Lexicon) (opens : Program → Bool) (c : Leg) :
    ((c.inside opens).declare c.program.shape.declared).DeclaredIn (L.closing opens c) := by
  by_cases hfor : ∃ pattern x body, c.program.shape = .forIn pattern x body
  · obtain ⟨pattern, x, body, hshape⟩ := hfor
    rw [hshape]
    exact (Env.declare_nil _).symm ▸ Env.declaredIn_declare _ _
  · rw [closing, inner_of_not_forIn _ fun pattern x body hshape => hfor ⟨pattern, x, body, hshape⟩]
    exact Env.declare_declaredIn_declare (List.subset_append_left _ _) _

/-! ## The scopes of legs -/

theorem scopes_walkAll (Ps : List Program) (env : Env) :
    (L.walkAll opens Ps env).1.scopes =
      (legsAll opens Ps env).flatMap fun c => (L.take opens c).scopes := by
  induction Ps generalizing env with
  | nil => rfl
  | cons P rest ih =>
    rw [walkAll, legsAll, List.flatMap_cons, ← ih, ← L.walk_env opens P {} env]
    rfl

theorem scopes_walkInside (c : Leg) :
    (L.walkInside opens c.program.id c.program.shape (c.inside opens)).1.scopes =
      (L.legs opens c).flatMap fun d => (L.take opens d).scopes := by
  rw [legs]
  obtain ⟨⟨id, shape⟩, initial, around⟩ := c
  generalize hinside : Leg.inside opens ⟨⟨id, shape⟩, initial, around⟩ = env
  cases shape with
  | block body => exact scopes_walkAll body env
  | conditional x body otherwise =>
    simp only [walkInside_conditional, Stmt.stmtSlots, ← scopes_walkAll]
    rfl
  | whileLoop x body =>
    simp only [walkInside_whileLoop, Stmt.stmtSlots, ← scopes_walkAll]
    rfl
  | forIn pattern x body =>
    rw [walkInside]
    dsimp only [loopBound]
    split_ifs <;> simp [Walk.andThen, Walk.report, Walk.declare, take, evaluate]
  | «variables» | expressions | returning | breaking | continuing => rfl

/-- The scopes found by a walk are those found by its legs, and at last its own one if it has a
frame. -/
theorem scopes_take (c : Leg) :
    (L.take opens c).scopes = ((L.legs opens c).flatMap fun d => (L.take opens d).scopes) ++
      if opens c.program then [(c.program.id, (L.closing opens c).headD {})] else [] := by
  rw [← scopes_walkInside, ← L.closing_eq opens c, take, walk_eq, Leg.inside]
  split_ifs
  · rfl
  · exact (List.append_nil _).symm

end Lexicon
end ExprTyping
