import ExprTyping.Proofs.Lexical.Judge

/-!
# Walking through a program with an environment

`Lexicon.walk` goes through a program in source order and hands the environment on from statement
to statement. The statements for which `opens` holds have a frame of their own, which is pushed on
the way in and popped on the way out; in an ordinary program these are the blocks and the loops
over a collection (`Program.opensByForm`).

* A declaration writes all its names to the innermost frame before its initializers are typed.
* A loop's variable stands in the frame of the body if the body has one, and else in the frame of
  the loop. What the loop iterates over is typed before.

An `Outcome` collects what is found on the way: the notes left on the expressions, the frames as
they were when they were popped, and the diagnostics.
-/

namespace ExprTyping

/-! ## Outcomes -/

/-- What a walk finds. -/
structure Outcome where
  findings : List Finding := []
  /-- The names declared in each statement with a frame, at the end of the statement. -/
  scopes : List (StmtId × Scope) := []
  diagnostics : List Diagnostic := []

namespace Outcome

instance : Append Outcome where
  append o o' :=
    ⟨o.findings ++ o'.findings, o.scopes ++ o'.scopes, o.diagnostics ++ o'.diagnostics⟩

@[simp] theorem findings_append (o o' : Outcome) :
    (o ++ o').findings = o.findings ++ o'.findings := rfl

@[simp] theorem scopes_append (o o' : Outcome) : (o ++ o').scopes = o.scopes ++ o'.scopes := rfl

@[simp] theorem diagnostics_append (o o' : Outcome) :
    (o ++ o').diagnostics = o.diagnostics ++ o'.diagnostics := rfl

@[simp] theorem append_empty (o : Outcome) : o ++ {} = o := by
  obtain ⟨findings, scopes, diagnostics⟩ := o
  show Outcome.mk (findings ++ []) (scopes ++ []) (diagnostics ++ []) = _
  simp only [List.append_nil]

theorem append_assoc (o o' o'' : Outcome) : o ++ o' ++ o'' = o ++ (o' ++ o'') := by
  show Outcome.mk _ _ _ = Outcome.mk _ _ _
  simp

/-- The note found on an expression. -/
def noteOn? (o : Outcome) (e : ExprId) : Option ExprNote :=
  (o.findings.find? fun f => f.expr = e).map (·.note)

/-- If all notes found on an expression are the same, that one is found. -/
theorem noteOn?_eq {o : Outcome} {e : ExprId} {note : ExprNote}
    (h : ∃ f ∈ o.findings, f.expr = e) (hnote : ∀ f ∈ o.findings, f.expr = e → f.note = note) :
    o.noteOn? e = some note := by
  rw [noteOn?]
  cases hf : o.findings.find? fun f => f.expr = e with
  | none =>
    obtain ⟨f, hmem, hfe⟩ := h
    exact absurd hfe (by simpa using List.find?_eq_none.1 hf f hmem)
  | some f =>
    have hfe : f.expr = e := by simpa using List.find?_some hf
    rw [Option.map_some, hnote f (List.mem_of_find?_eq_some hf) hfe]

/-- Everything found in `o` is found in `o'`. -/
structure Within (o o' : Outcome) : Prop where
  findings : o.findings ⊆ o'.findings
  scopes : o.scopes ⊆ o'.scopes
  diagnostics : o.diagnostics ⊆ o'.diagnostics

namespace Within

variable {o o' o'' : Outcome}

theorem refl (o : Outcome) : o.Within o :=
  ⟨List.Subset.refl _, List.Subset.refl _, List.Subset.refl _⟩

theorem append_left (h : o.Within o') : o.Within (o' ++ o'') :=
  ⟨fun _ hf => List.mem_append_left _ (h.findings hf),
    fun _ hs => List.mem_append_left _ (h.scopes hs),
    fun _ hd => List.mem_append_left _ (h.diagnostics hd)⟩

theorem append_right (h : o.Within o'') : o.Within (o' ++ o'') :=
  ⟨fun _ hf => List.mem_append_right _ (h.findings hf),
    fun _ hs => List.mem_append_right _ (h.scopes hs),
    fun _ hd => List.mem_append_right _ (h.diagnostics hd)⟩

theorem trans (h : o.Within o') (h' : o'.Within o'') : o.Within o'' :=
  ⟨fun _ hf => h'.findings (h.findings hf), fun _ hs => h'.scopes (h.scopes hs),
    fun _ hd => h'.diagnostics (h.diagnostics hd)⟩

end Within
end Outcome

/-! ## Steps -/

/-- A walk through a part of a program. -/
abbrev Walk := Env → Outcome × Env

namespace Walk

/-- Nothing to do. -/
def skip : Walk := fun env => ({}, env)

/-- One walk after another. -/
def andThen (first second : Walk) : Walk := fun env =>
  ((first env).1 ++ (second (first env).2).1, (second (first env).2).2)

/-- Declares names in the innermost frame. -/
def declare (definitions : List Definition) : Walk := fun env => ({}, env.declare definitions)

/-- Reports issues about a statement. -/
def report (s : StmtId) (issues : List Issue) : Walk := fun env =>
  ({ diagnostics := issues.map (⟨·, .stmt s⟩) }, env)

/-- A walk in a frame of its own, which starts with the given names. -/
def framed (s : StmtId) (initial : Scope) (inner : Walk) : Walk := fun env =>
  let result := inner (initial :: env)
  (result.1 ++ { scopes := [(s, result.2.headD {})] }, result.2.tail)

end Walk

/-- The variables that a loop pattern binds. -/
def Pattern.bound (element : Ty) : Pattern → List Definition
  | .identifier name => [⟨name, element⟩]
  | .wildcard | .tuple _ => []

/-- What is wrong with a loop pattern. -/
def Pattern.issue? : Pattern → Option Issue
  | .tuple items => some (.unsupportedLoopPattern (Pattern.tuple items).render)
  | .identifier _ | .wildcard => none

/-- Whether a statement of this form has a frame of its own. -/
def Program.opensByForm (P : Program) : Bool := P.shape.opensScope

namespace Lexicon

variable (L : Lexicon)

/-- Types terms one after another. -/
def evaluate (terms : List (Term Mark)) : Walk := fun env =>
  ({ findings := terms.flatMap fun T => (L.judge env T).findings (L.judge env T).label.note
     diagnostics := terms.flatMap fun T => (L.judge env T).diagnostics }, env)

variable (opens : Program → Bool)

mutual

/-- Walks through a program. Its frame, if it has one, starts with the given names. -/
def walk : Program → Scope → Walk
  | ⟨id, shape⟩, initial =>
    if opens ⟨id, shape⟩ then .framed id initial (walkInside id shape) else walkInside id shape
termination_by structural P => P

/-- Walks through what is inside a statement. -/
def walkInside : StmtId → Stmt (Term Mark) Program → Walk
  | _, .block body => walkAll body
  | _, .conditional c body none => (L.evaluate [c]).andThen (walk body {})
  | _, .conditional c body (some otherwise) =>
    (L.evaluate [c]).andThen ((walk body {}).andThen (walk otherwise {}))
  | _, .whileLoop c body => (L.evaluate [c]).andThen (walk body {})
  | id, .forIn pattern x body => fun env =>
    let (element, issue) := Rule.loopElement L.catalog (L.judge env x).label.type
    let bound := pattern.bound element
    let head := (L.evaluate [x]).andThen (.report id (issue.toList ++ pattern.issue?.toList))
    let rest :=
      if opens body then walk body (bound.foldl Scope.record {})
      else if opens ⟨id, .forIn pattern x body⟩ then
        (Walk.declare bound).andThen (walk body {})
      else walk body {}
    head.andThen rest env
  | _, .variables declarations =>
    (Walk.declare (declarations.map fun d => ⟨d.name, d.type⟩)).andThen
      (L.evaluate (declarations.filterMap (·.initializer)))
  | _, .expressions items => L.evaluate items
  | _, .returning value => L.evaluate value.toList
  | _, .breaking | _, .continuing => .skip
termination_by structural _ shape => shape

/-- Walks through several programs. -/
def walkAll : List Program → Walk
  | [] => .skip
  | P :: rest => (walk P {}).andThen (walkAll rest)
termination_by structural Ps => Ps

end

/-! ## What a walk contains -/

theorem walkInside_conditional (id : StmtId) (c : Term Mark) (body : Program)
    (otherwise : Option Program) :
    L.walkInside opens id (.conditional c body otherwise) =
      (L.evaluate [c]).andThen (L.walkAll opens (body :: otherwise.toList)) := by
  funext env
  cases otherwise <;> simp [walkInside, walkAll, Walk.andThen, Walk.skip]

theorem walkInside_whileLoop (id : StmtId) (c : Term Mark) (body : Program) :
    L.walkInside opens id (.whileLoop c body) =
      (L.evaluate [c]).andThen (L.walkAll opens [body]) := by
  funext env
  simp [walkInside, walkAll, Walk.andThen, Walk.skip]

theorem walk_eq (P : Program) (initial : Scope) :
    L.walk opens P initial =
      if opens P then .framed P.id initial (L.walkInside opens P.id P.shape)
      else L.walkInside opens P.id P.shape := by
  obtain ⟨id, shape⟩ := P
  rw [walk]

theorem evaluate_singleton (T : Term Mark) (env : Env) :
    (L.evaluate [T] env).1 =
      { findings := (L.judge env T).findings (L.judge env T).label.note
        diagnostics := (L.judge env T).diagnostics } := by
  simp [evaluate]

theorem evaluate_cons (T : Term Mark) (rest : List (Term Mark)) (env : Env) :
    (L.evaluate (T :: rest) env).1 = (L.evaluate [T] env).1 ++ (L.evaluate rest env).1 := by
  show Outcome.mk _ _ _ = Outcome.mk _ _ _
  simp [evaluate]

theorem evaluate_within {T : Term Mark} {terms : List (Term Mark)} (h : T ∈ terms) (env : Env) :
    (L.evaluate [T] env).1.Within (L.evaluate terms env).1 := by
  rw [evaluate_singleton]
  exact ⟨fun f hf => List.mem_flatMap.2 ⟨T, h, hf⟩, List.nil_subset _,
    fun d hd => List.mem_flatMap.2 ⟨T, h, hd⟩⟩

theorem walkAll_append (Ps Qs : List Program) :
    L.walkAll opens (Ps ++ Qs) = (L.walkAll opens Ps).andThen (L.walkAll opens Qs) := by
  induction Ps with
  | nil => rfl
  | cons P rest ih =>
    funext env
    rw [List.cons_append, walkAll, walkAll, ih]
    exact Prod.ext (Outcome.append_assoc ..).symm rfl

/-- The walk through several programs contains the walk through each, in the environment that the
programs before it leave. -/
theorem within_walkAll (before after : List Program) (Q : Program) (env : Env) :
    (L.walk opens Q {} (L.walkAll opens before env).2).1.Within
      (L.walkAll opens (before ++ Q :: after) env).1 := by
  rw [walkAll_append, walkAll]
  exact (Outcome.Within.refl _).append_left.append_right

theorem exists_within_walkAll {Q : Program} {Ps : List Program} (h : Q ∈ Ps) (env : Env) :
    ∃ env', (L.walk opens Q {} env').1.Within (L.walkAll opens Ps env).1 := by
  obtain ⟨before, after, rfl⟩ := List.append_of_mem h
  exact ⟨_, within_walkAll L opens before after Q env⟩

/-- The walk through a program contains what is inside. -/
theorem inside_within (P : Program) (initial : Scope) (env : Env) :
    (L.walkInside opens P.id P.shape (if opens P then initial :: env else env)).1.Within
      (L.walk opens P initial env).1 := by
  rw [walk_eq]
  split
  · exact (Outcome.Within.refl _).append_left
  · exact .refl _

/-- What a loop iterates over is typed in the environment inside the loop. -/
theorem iterated_within (id : StmtId) (pattern : Pattern) (x : Term Mark) (body : Program)
    (env : Env) :
    (L.evaluate [x] env).1.Within (L.walkInside opens id (.forIn pattern x body) env).1 :=
  (Outcome.Within.refl _).append_left.append_left

/-- The walk through a program types all its expressions, each in some environment. -/
theorem exists_within_expr {P : Program} {T : Term Mark} (h : T ∈ P.shape.exprSlots)
    (initial : Scope) (env : Env) :
    ∃ env', (L.evaluate [T] env').1.Within (L.walk opens P initial env).1 := by
  have hinner := inside_within L opens P initial env
  generalize (if opens P then initial :: env else env) = inner at hinner
  suffices ∃ env', (L.evaluate [T] env').1.Within (L.walkInside opens P.id P.shape inner).1 by
    obtain ⟨env', hT⟩ := this
    exact ⟨env', hT.trans hinner⟩
  obtain ⟨id, shape⟩ := P
  cases shape with
  | block | breaking | continuing => simp [Stmt.exprSlots] at h
  | conditional c body otherwise =>
    obtain rfl : T = c := by simpa [Stmt.exprSlots] using h
    cases otherwise <;> exact ⟨inner, (Outcome.Within.refl _).append_left⟩
  | whileLoop c body =>
    obtain rfl : T = c := by simpa [Stmt.exprSlots] using h
    exact ⟨inner, (Outcome.Within.refl _).append_left⟩
  | forIn pattern x body =>
    obtain rfl : T = x := by simpa [Stmt.exprSlots] using h
    exact ⟨inner, iterated_within L opens id pattern T body inner⟩
  | «variables» declarations => exact ⟨_, (evaluate_within L h _).append_right⟩
  | expressions items => exact ⟨inner, evaluate_within L h inner⟩
  | returning value => exact ⟨inner, evaluate_within L h inner⟩

/-- The walk through a program goes through all its inner statements, each in some environment. -/
theorem exists_within_stmt {P Q : Program} (h : Q ∈ P.shape.stmtSlots) (initial : Scope)
    (env : Env) :
    ∃ initial' env', (L.walk opens Q initial' env').1.Within (L.walk opens P initial env).1 := by
  have hinner := inside_within L opens P initial env
  generalize (if opens P then initial :: env else env) = inner at hinner
  suffices ∃ initial' env',
      (L.walk opens Q initial' env').1.Within (L.walkInside opens P.id P.shape inner).1 by
    obtain ⟨initial', env', hQ⟩ := this
    exact ⟨initial', env', hQ.trans hinner⟩
  obtain ⟨id, shape⟩ := P
  cases shape with
  | block body =>
    obtain ⟨env', hQ⟩ := exists_within_walkAll L opens (show Q ∈ body from h) inner
    exact ⟨{}, env', hQ⟩
  | conditional c body otherwise =>
    cases otherwise with
    | none =>
      obtain rfl : Q = body := by simpa [Stmt.stmtSlots] using h
      exact ⟨{}, _, (Outcome.Within.refl _).append_right⟩
    | some e =>
      rcases (by simpa [Stmt.stmtSlots] using h : Q = body ∨ Q = e) with rfl | rfl
      · exact ⟨{}, _, (Outcome.Within.refl _).append_left.append_right⟩
      · exact ⟨{}, _, (Outcome.Within.refl _).append_right.append_right⟩
  | whileLoop c body =>
    obtain rfl : Q = body := by simpa [Stmt.stmtSlots] using h
    exact ⟨{}, _, (Outcome.Within.refl _).append_right⟩
  | forIn pattern x body =>
    obtain rfl : Q = body := by simpa [Stmt.stmtSlots] using h
    by_cases hQ : opens Q
    · rw [walkInside]
      simp only [hQ, if_true]
      exact ⟨_, _, (Outcome.Within.refl _).append_right⟩
    · by_cases hP : opens ⟨id, .forIn pattern x Q⟩
      · rw [walkInside]
        simp only [hQ, hP, if_true]
        exact ⟨_, _, (Outcome.Within.refl _).append_right.append_right⟩
      · rw [walkInside]
        simp only [hQ, hP]
        exact ⟨_, _, (Outcome.Within.refl _).append_right⟩
  | «variables» | expressions | returning | breaking | continuing => simp [Stmt.stmtSlots] at h

/-! ## What a walk leaves of the environment -/

theorem tail_walkAll {Ps : List Program}
    (h : ∀ P ∈ Ps, ∀ initial env, (L.walk opens P initial env).2.tail = env.tail) (env : Env) :
    (L.walkAll opens Ps env).2.tail = env.tail := by
  induction Ps generalizing env with
  | nil => rfl
  | cons P rest ih =>
    rw [walkAll]
    show (L.walkAll opens rest (L.walk opens P {} env).2).2.tail = _
    rw [ih fun Q hQ => h Q (List.mem_cons_of_mem _ hQ), h P List.mem_cons_self]

/-- What is inside a statement declares names in the innermost frame only. -/
theorem tail_walkInside {id : StmtId} {shape : Stmt (Term Mark) Program}
    (h : ∀ P ∈ shape.stmtSlots, ∀ initial env, (L.walk opens P initial env).2.tail = env.tail)
    (env : Env) : (L.walkInside opens id shape env).2.tail = env.tail := by
  cases shape with
  | block body => exact tail_walkAll L opens h env
  | conditional c body otherwise =>
    rw [walkInside_conditional]
    exact tail_walkAll L opens h env
  | whileLoop c body =>
    rw [walkInside_whileLoop]
    exact tail_walkAll L opens h env
  | forIn pattern x body =>
    have hbody : ∀ initial env, (L.walk opens body initial env).2.tail = env.tail :=
      h body (List.mem_singleton.2 rfl)
    rw [walkInside]
    simp only [Walk.andThen]
    split_ifs
    · exact hbody _ _
    · exact (hbody _ _).trans (Env.tail_declare ..)
    · exact hbody _ _
  | «variables» declarations => exact Env.tail_declare ..
  | expressions | returning | breaking | continuing => rfl

theorem tail_walk (P : Program) (initial : Scope) (env : Env) :
    (L.walk opens P initial env).2.tail = env.tail := by
  induction P using Program.induct generalizing initial env with
  | node P ih =>
    rw [walk_eq]
    split_ifs
    · show (L.walkInside opens P.id P.shape (initial :: env)).2.tail.tail = _
      rw [tail_walkInside L opens ih]
      rfl
    · exact tail_walkInside L opens ih env

/-- A statement with a frame leaves the environment as it was. -/
theorem walk_env_of_opens {P : Program} (h : opens P = true) (initial : Scope) (env : Env) :
    (L.walk opens P initial env).2 = env := by
  rw [walk_eq, if_pos h]
  show (L.walkInside opens P.id P.shape (initial :: env)).2.tail = env
  rw [tail_walkInside L opens fun Q _ => tail_walk L opens Q]
  rfl

end Lexicon
end ExprTyping
