import ExprTyping.Proofs.Lexical.Coverage

/-!
# The legs of a walk

A walk through a program types the program's own expressions, reports what is wrong with the
statement itself, and goes through the inner programs one after another (`Lexicon.take_parts`).

* `Program.declares` lists the variables that a program declares in the frame around it. They are
  all that a walk leaves of its way (`Lexicon.walk_env`).
* `Lexicon.legs` lists the walks through the inner programs: each starts in the environment that
  those before it leave. `Lexicon.Leads` says that a walk is taken on the way of another one.
-/

namespace ExprTyping

theorem Env.declare_nil (env : Env) : env.declare [] = env := by
  cases env <;> rfl

theorem Env.declare_append (env : Env) (ds ds' : List Definition) :
    env.declare (ds ++ ds') = (env.declare ds).declare ds' := by
  cases env with
  | nil => rfl
  | cons scope rest => simp only [declare, List.foldl_append]

/-! ## What a program declares around itself -/

/-- Whether a statement of the arena has a frame of its own: names can be declared in it. -/
def Arena.opens (a : Arena) (P : Program) : Bool := a.owns P.id

/-- The variables that a statement itself declares. -/
def Stmt.declared {ε σ : Type} : Stmt ε σ → List Definition
  | .variables declarations => declarations.map fun d => ⟨d.name, d.type⟩
  | _ => []

@[simp] theorem Stmt.declared_map {ε ε' σ σ' : Type} (f : ε → ε') (g : σ → σ') (k : Stmt ε σ) :
    (k.map f g).declared = k.declared := by
  cases k <;> simp [declared, map, VariableDeclaration.map]

namespace Program

variable (opens : Program → Bool)

mutual

/-- The variables that a program declares in the innermost frame around it. -/
def declares : Program → List Definition
  | ⟨id, shape⟩ => if opens ⟨id, shape⟩ then [] else declaresInside shape
termination_by structural P => P

/-- The variables that a statement declares in the innermost frame. -/
def declaresInside : Stmt (Term Mark) Program → List Definition
  | .block body => declaresAll body
  | .conditional _ body none => declares body
  | .conditional _ body (some otherwise) => declares body ++ declares otherwise
  | .whileLoop _ body | .forIn _ _ body => declares body
  | .variables declarations => declarations.map fun d => ⟨d.name, d.type⟩
  | .expressions _ | .returning _ | .breaking | .continuing => []
termination_by structural shape => shape

/-- The variables that several programs declare around themselves. -/
def declaresAll : List Program → List Definition
  | [] => []
  | P :: rest => declares P ++ declaresAll rest
termination_by structural Ps => Ps

end

theorem declaresAll_eq (Ps : List Program) :
    declaresAll opens Ps = Ps.flatMap (declares opens) := by
  induction Ps with
  | nil => rfl
  | cons P rest ih => rw [declaresAll, ih, List.flatMap_cons]

theorem declares_eq (P : Program) :
    P.declares opens =
      if opens P then []
      else P.shape.declared ++ P.shape.stmtSlots.flatMap (declares opens) := by
  obtain ⟨id, shape⟩ := P
  rw [declares]
  split_ifs
  · rfl
  · cases shape with
    | block body => exact declaresAll_eq opens body
    | conditional c body otherwise =>
      cases otherwise <;> simp [declaresInside, Stmt.declared, Stmt.stmtSlots]
    | _ => simp [declaresInside, Stmt.declared, Stmt.stmtSlots]

theorem declares_of_opens {P : Program} (h : opens P = true) : P.declares opens = [] := by
  rw [declares_eq, if_pos h]

end Program

namespace Lexicon

variable (L : Lexicon) (opens : Program → Bool)

theorem walkAll_env {Ps : List Program}
    (h : ∀ P ∈ Ps, ∀ initial env,
      (L.walk opens P initial env).2 = env.declare (P.declares opens)) (env : Env) :
    (L.walkAll opens Ps env).2 = env.declare (Ps.flatMap (Program.declares opens)) := by
  induction Ps generalizing env with
  | nil => exact (Env.declare_nil env).symm
  | cons P rest ih =>
    rw [walkAll, List.flatMap_cons, Env.declare_append]
    show (L.walkAll opens rest (L.walk opens P {} env).2).2 = _
    rw [h P List.mem_cons_self, ih fun Q hQ => h Q (List.mem_cons_of_mem _ hQ)]

/-- The variables that a loop pattern binds, with the type of the elements of what the loop iterates
over. -/
def loopBound (env : Env) (pattern : Pattern) (x : Term Mark) : List Definition :=
  pattern.bound (Rule.loopElement L.catalog (L.judge env x).label.type).1

/-- The variables declared in the innermost frame by the end of a program. -/
def inner (P : Program) (env : Env) : List Definition :=
  match P.shape with
  | .forIn pattern x body =>
    if opens body then []
    else (if opens P then L.loopBound env pattern x else []) ++ body.declares opens
  | shape => shape.declared ++ shape.stmtSlots.flatMap (Program.declares opens)

theorem inner_of_not_opens {P : Program} (h : ¬ opens P = true) (env : Env) :
    L.inner opens P env = P.declares opens := by
  rw [Program.declares_eq, if_neg h]
  obtain ⟨id, shape⟩ := P
  cases shape with
  | forIn pattern x body =>
    rw [inner]
    simp only [if_neg h, Stmt.declared, Stmt.stmtSlots, List.flatMap_cons, List.flatMap_nil,
      List.append_nil, List.nil_append]
    split_ifs with hbody
    · rw [Program.declares_of_opens opens hbody]
    · rfl
  | _ => rfl

theorem walkInside_env {P : Program}
    (h : ∀ Q ∈ P.shape.stmtSlots, ∀ initial env,
      (L.walk opens Q initial env).2 = env.declare (Q.declares opens)) (env : Env) :
    (L.walkInside opens P.id P.shape env).2 = env.declare (L.inner opens P env) := by
  obtain ⟨id, shape⟩ := P
  cases shape with
  | block body => exact walkAll_env L opens h env
  | conditional c body otherwise =>
    rw [walkInside_conditional]
    exact walkAll_env L opens h env
  | whileLoop c body =>
    rw [walkInside_whileLoop]
    exact walkAll_env L opens h env
  | forIn pattern x body =>
    have hbody := h body (List.mem_singleton.2 rfl)
    rw [walkInside, inner]
    dsimp only [Walk.andThen]
    split_ifs with hopens
    · rw [walk_env_of_opens L opens hopens, Env.declare_nil]
      rfl
    · rw [Env.declare_append]
      exact hbody _ _
    · exact hbody _ _
  | «variables» declarations => simp [walkInside, Walk.andThen, Walk.declare, evaluate, inner,
      Stmt.declared, Stmt.stmtSlots]
  | expressions | returning | breaking | continuing => exact (Env.declare_nil env).symm

/-- A walk leaves the environment with what the program declares around itself. -/
theorem walk_env (P : Program) (initial : Scope) (env : Env) :
    (L.walk opens P initial env).2 = env.declare (P.declares opens) := by
  induction P using Program.induct generalizing initial env with
  | node P ih =>
    by_cases hP : opens P = true
    · rw [walk_env_of_opens L opens hP, Program.declares_of_opens opens hP, Env.declare_nil]
    · rw [walk_eq, if_neg hP, L.walkInside_env opens ih, L.inner_of_not_opens opens hP]

end Lexicon

/-! ## Legs -/

/-- A walk to be taken: the program, the names that its frame starts with, and the
environment. -/
structure Leg where
  program : Program
  initial : Scope
  env : Env

/-- The environment inside a program. -/
def Leg.inside (opens : Program → Bool) (c : Leg) : Env :=
  if opens c.program then c.initial :: c.env else c.env

theorem Leg.inside_all {condition : Definition → Prop} {c : Leg}
    (hinitial : c.initial.All condition) (henv : c.env.All condition) (opens : Program → Bool) :
    Env.All condition (c.inside opens) := by
  rw [Leg.inside]
  split_ifs
  · exact henv.cons hinitial
  · exact henv

namespace Lexicon

variable (L : Lexicon) (opens : Program → Bool)

/-- The walk that is taken. -/
def take (c : Leg) : Outcome := (L.walk opens c.program c.initial c.env).1

/-- The walks through several programs. -/
def legsAll : List Program → Env → List Leg
  | [], _ => []
  | P :: rest, env => ⟨P, {}, env⟩ :: legsAll rest (env.declare (P.declares opens))

/-- The walks through the inner programs. -/
def legs (c : Leg) : List Leg :=
  match c.program.shape with
  | .forIn pattern x body =>
    let bound := L.loopBound (c.inside opens) pattern x
    if opens body then [⟨body, bound.foldl Scope.record {}, c.inside opens⟩]
    else if opens c.program then [⟨body, {}, (c.inside opens).declare bound⟩]
    else [⟨body, {}, c.inside opens⟩]
  | shape => legsAll opens shape.stmtSlots (c.inside opens)

/-- What is wrong with the statement itself. -/
def issues (c : Leg) : List Issue :=
  match c.program.shape with
  | .forIn pattern x _ =>
    (Rule.loopElement L.catalog (L.judge (c.inside opens) x).label.type).2.toList ++
      pattern.issue?.toList
  | _ => []

/-- What is found on the program's own expressions. -/
def own (c : Leg) : Outcome :=
  (L.evaluate c.program.shape.exprSlots
    ((c.inside opens).declare c.program.shape.declared)).1

theorem legs_eq_legsAll {c : Leg}
    (h : ∀ pattern x body, c.program.shape ≠ .forIn pattern x body) :
    L.legs opens c = legsAll opens c.program.shape.stmtSlots (c.inside opens) := by
  unfold legs
  split
  · exact absurd ‹_› (h _ _ _)
  · rfl

theorem program_legsAll (Ps : List Program) (env : Env) :
    (legsAll opens Ps env).map (·.program) = Ps := by
  induction Ps generalizing env with
  | nil => rfl
  | cons P rest ih => rw [legsAll, List.map_cons, ih]

/-- There is one leg for each inner program. -/
theorem program_legs (c : Leg) :
    (L.legs opens c).map (·.program) = c.program.shape.stmtSlots := by
  unfold legs
  split
  · rename_i pattern x body hshape
    rw [hshape]
    dsimp only
    split_ifs <;> rfl
  · exact program_legsAll opens _ _

theorem legsAll_all {condition : Definition → Prop} {Ps : List Program} {env : Env} {d : Leg}
    (h : ∀ P ∈ Ps, ∀ x ∈ P.declares opens, condition x) (henv : env.All condition)
    (hd : d ∈ legsAll opens Ps env) : d.initial.All condition ∧ d.env.All condition := by
  induction Ps generalizing env with
  | nil => cases hd
  | cons P rest ih =>
    rcases List.mem_cons.1 hd with rfl | hd
    · exact ⟨.empty, henv⟩
    · exact ih (fun Q hQ => h Q (List.mem_cons_of_mem _ hQ))
        (henv.declare (h P List.mem_cons_self)) hd

/-- What holds of all names around and in a program holds of all names that a leg starts from. -/
theorem legs_all {condition : Definition → Prop} {c d : Leg}
    (hinside : Env.All condition (c.inside opens))
    (hdeclares : ∀ P ∈ c.program.shape.stmtSlots, ∀ x ∈ P.declares opens, condition x)
    (hbound : ∀ pattern x body, c.program.shape = .forIn pattern x body →
      ∀ y ∈ L.loopBound (c.inside opens) pattern x, condition y) (hd : d ∈ L.legs opens c) :
    d.initial.All condition ∧ d.env.All condition := by
  unfold legs at hd
  split at hd
  · rename_i pattern x body hshape
    have hbound := hbound pattern x body hshape
    dsimp only at hd
    split_ifs at hd <;> obtain rfl := List.mem_singleton.1 hd
    · exact ⟨.recordAll .empty hbound, hinside⟩
    · exact ⟨.empty, hinside.declare hbound⟩
    · exact ⟨.empty, hinside⟩
  · exact legsAll_all opens hdeclares hinside hd

theorem findings_walkAll (Ps : List Program) (env : Env) :
    (L.walkAll opens Ps env).1.findings =
      (legsAll opens Ps env).flatMap fun c => (L.take opens c).findings := by
  induction Ps generalizing env with
  | nil => rfl
  | cons P rest ih =>
    rw [walkAll, legsAll, List.flatMap_cons, ← ih, ← L.walk_env opens P {} env]
    rfl

theorem diagnostics_walkAll (Ps : List Program) (env : Env) :
    (L.walkAll opens Ps env).1.diagnostics =
      (legsAll opens Ps env).flatMap fun c => (L.take opens c).diagnostics := by
  induction Ps generalizing env with
  | nil => rfl
  | cons P rest ih =>
    rw [walkAll, legsAll, List.flatMap_cons, ← ih, ← L.walk_env opens P {} env]
    rfl

/-- A walk adds nothing but scopes to what is found inside. -/
theorem take_inside (c : Leg) :
    (L.take opens c).findings =
        (L.walkInside opens c.program.id c.program.shape (c.inside opens)).1.findings ∧
      (L.take opens c).diagnostics =
        (L.walkInside opens c.program.id c.program.shape (c.inside opens)).1.diagnostics := by
  rw [take, walk_eq, Leg.inside]
  split_ifs
  · exact ⟨List.append_nil _, List.append_nil _⟩
  · exact ⟨rfl, rfl⟩

/-- The parts of a walk, in order: the program's own expressions, what is wrong with the statement
itself, and the legs. -/
theorem take_parts (c : Leg) :
    (L.take opens c).findings = (L.own opens c).findings ++
        (L.legs opens c).flatMap (fun d => (L.take opens d).findings) ∧
      (L.take opens c).diagnostics = (L.own opens c).diagnostics ++
        (L.issues opens c).map (⟨·, .stmt c.program.id⟩) ++
        (L.legs opens c).flatMap (fun d => (L.take opens d).diagnostics) := by
  rw [(L.take_inside opens c).1, (L.take_inside opens c).2, own, legs, issues]
  obtain ⟨⟨id, shape⟩, initial, around⟩ := c
  generalize hinside : Leg.inside opens ⟨⟨id, shape⟩, initial, around⟩ = env
  cases shape with
  | block body =>
    simp only [Stmt.exprSlots, Stmt.stmtSlots, evaluate]
    exact ⟨L.findings_walkAll opens body env, L.diagnostics_walkAll opens body env⟩
  | conditional x body otherwise =>
    simp only [walkInside_conditional, Stmt.exprSlots, Stmt.stmtSlots, Stmt.declared,
      Env.declare_nil, ← findings_walkAll, ← diagnostics_walkAll, List.map_nil, List.append_nil]
    exact ⟨rfl, rfl⟩
  | whileLoop x body =>
    simp only [walkInside_whileLoop, Stmt.exprSlots, Stmt.stmtSlots, Stmt.declared,
      Env.declare_nil, ← findings_walkAll, ← diagnostics_walkAll, List.map_nil, List.append_nil]
    exact ⟨rfl, rfl⟩
  | forIn pattern x body =>
    rw [walkInside]
    dsimp only [Stmt.exprSlots, Stmt.declared, loopBound]
    rw [Env.declare_nil]
    split_ifs <;> constructor <;>
      simp [Walk.andThen, Walk.report, Walk.declare, take, evaluate]
  | «variables» declarations =>
    simp [walkInside, Walk.andThen, Walk.declare, Stmt.exprSlots, Stmt.stmtSlots, Stmt.declared,
      legsAll]
  | expressions items | returning value =>
    simp [walkInside, Stmt.exprSlots, Stmt.stmtSlots, Stmt.declared, Env.declare_nil, legsAll]
  | breaking | continuing => exact ⟨rfl, rfl⟩

/-! ## On the way -/

theorem program_mem_of_leg {c d : Leg} (h : d ∈ L.legs opens c) :
    d.program ∈ c.program.shape.stmtSlots := by
  rw [← L.program_legs opens c]
  exact List.mem_map.2 ⟨d, h, rfl⟩

/-- Induction over walks, with the hypothesis for every leg. -/
theorem leg_induct {motive : Leg → Prop}
    (step : ∀ c, (∀ d ∈ L.legs opens c, motive d) → motive c) (c : Leg) : motive c := by
  obtain ⟨P, initial, env⟩ := c
  induction P using Program.induct generalizing initial env with
  | node P ih =>
    exact step _ fun d hd => ih d.program (L.program_mem_of_leg opens hd) d.initial d.env

/-- The walk `d` is taken on the way of the walk `c`, or is that walk. -/
def Leads (c d : Leg) : Prop := Relation.ReflTransGen (fun c d => d ∈ L.legs opens c) c d

variable {L opens} {c d : Leg} {a : Arena}

theorem Leads.of_leg {e : Leg} (h : d ∈ L.legs opens c) (hd : L.Leads opens d e) :
    L.Leads opens c e := Relation.ReflTransGen.head h hd

/-- What a walk finds is found on the way on some program's own expressions. -/
theorem mem_findings_take {f : Finding} :
    f ∈ (L.take opens c).findings ↔ ∃ d, L.Leads opens c d ∧ f ∈ (L.own opens d).findings := by
  constructor
  · induction c using L.leg_induct opens with
    | step c ih =>
      intro hf
      rw [(L.take_parts opens c).1, List.mem_append, List.mem_flatMap] at hf
      rcases hf with hf | ⟨d, hd, hf⟩
      · exact ⟨c, .refl, hf⟩
      · obtain ⟨e, he, hf⟩ := ih d hd hf
        exact ⟨e, .of_leg hd he, hf⟩
  · rintro ⟨d, hd, hf⟩
    induction hd using Relation.ReflTransGen.head_induction_on with
    | refl =>
      rw [(L.take_parts opens d).1]
      exact List.mem_append_left _ hf
    | head hleg _ ih =>
      rw [(L.take_parts opens _).1]
      exact List.mem_append_right _ (List.mem_flatMap.2 ⟨_, hleg, ih⟩)

theorem Leads.findings_subset (h : L.Leads opens c d) :
    (L.take opens d).findings ⊆ (L.take opens c).findings := by
  intro f hf
  obtain ⟨e, he, hf⟩ := mem_findings_take.1 hf
  exact mem_findings_take.2 ⟨e, h.trans he, hf⟩

/-- What a walk reports is reported on the way about some program's own expressions, or about the
statement. -/
theorem mem_diagnostics_take {x : Diagnostic} :
    x ∈ (L.take opens c).diagnostics ↔ ∃ d, L.Leads opens c d ∧
      (x ∈ (L.own opens d).diagnostics ∨
        ∃ i ∈ L.issues opens d, x = ⟨i, .stmt d.program.id⟩) := by
  have own_iff : ∀ d, x ∈ (L.own opens d).diagnostics ++
      (L.issues opens d).map (⟨·, .stmt d.program.id⟩) ↔ (x ∈ (L.own opens d).diagnostics ∨
        ∃ i ∈ L.issues opens d, x = ⟨i, .stmt d.program.id⟩) := by
    intro d
    simp only [List.mem_append, List.mem_map, eq_comm]
  constructor
  · induction c using L.leg_induct opens with
    | step c ih =>
      intro hx
      rw [(L.take_parts opens c).2, List.mem_append, List.mem_flatMap] at hx
      rcases hx with hx | ⟨d, hd, hx⟩
      · exact ⟨c, .refl, (own_iff c).1 hx⟩
      · obtain ⟨e, he, hx⟩ := ih d hd hx
        exact ⟨e, .of_leg hd he, hx⟩
  · rintro ⟨d, hd, hx⟩
    induction hd using Relation.ReflTransGen.head_induction_on with
    | refl =>
      rw [(L.take_parts opens d).2]
      exact List.mem_append_left _ ((own_iff d).2 hx)
    | head hleg _ ih =>
      rw [(L.take_parts opens _).2]
      exact List.mem_append_right _ (List.mem_flatMap.2 ⟨_, hleg, ih⟩)

/-- The programs on the way are those of statements below. -/
theorem Leads.holds (h : L.Leads opens c d) (hc : a.Holds c.program) :
    a.Holds d.program ∧ a.Below (.stmt c.program.id) (.stmt d.program.id) := by
  induction h with
  | refl => exact ⟨hc, .refl _⟩
  | tail _ hleg ih =>
    have hmem := L.program_mem_of_leg opens hleg
    exact ⟨ih.1.stmt hmem, ih.2.tail (ih.1.child_stmt hmem)⟩

/-- What a walk finds is found on expressions below its program. -/
theorem below_of_mem_take (hc : a.Holds c.program) {f : Finding}
    (hf : f ∈ (L.take opens c).findings) : a.Below (.stmt c.program.id) (.expr f.expr) := by
  obtain ⟨d, hd, hf⟩ := mem_findings_take.1 hf
  obtain ⟨hP, hbelow⟩ := hd.holds hc
  obtain ⟨T, hT, hf⟩ := List.mem_flatMap.1 hf
  exact hbelow.trans
    (Arena.Below.of_child (hP.child_expr hT) (below_of_mem_findings (hP.expr hT) hf))

end Lexicon
end ExprTyping
