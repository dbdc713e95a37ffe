import ExprTyping.Proofs.Lexical.Legs

/-!
# Comparing walks through two programs

A program is changed at one place: its nodes may get other handles, and the expressions may stand in
other slots. A `Comparison` says what the walk through the changed program has to find: its notes
match the old ones, it finds the same names in every statement, and it reports the same about the
renamed nodes.

Both parts of a program add up. So if typing the expressions compares (`Comparison.Terms`), then
walking through a statement does (`Lexicon.walkInside_compares`), and so does walking through the
whole program (`Lexicon.walk_compares`).
-/

namespace ExprTyping

/-- The node with another handle. -/
def NodeId.map (f : ExprId → ExprId) (g : StmtId → StmtId) : NodeId → NodeId
  | .expr e => .expr (f e)
  | .stmt s => .stmt (g s)

/-- The same issue about another node. -/
def Diagnostic.map (f : ExprId → ExprId) (g : StmtId → StmtId) (d : Diagnostic) : Diagnostic :=
  ⟨d.issue, d.node.map f g⟩

@[simp] theorem Diagnostic.map_id : Diagnostic.map id id = id := by
  funext d
  obtain ⟨issue, node⟩ := d
  cases node <;> rfl

/-- What a walk through a changed program has to do with the walk through the old one. -/
structure Comparison where
  /-- What is presumed of the notes that are found on the old program. -/
  presumes : Finding → Prop
  /-- How the notes found on the new program match those. -/
  finds : List Finding → List Finding → Prop
  /-- The new handle of an expression. -/
  expr : ExprId → ExprId := id
  /-- The new handle of a statement. -/
  stmt : StmtId → StmtId := id
  nil : finds [] []
  append {fs fs' gs gs'} : finds fs fs' → finds gs gs' → finds (fs ++ gs) (fs' ++ gs')

namespace Comparison

variable (C : Comparison) {L : Lexicon} {o o' q q' : Outcome} {w w' v v' : Walk}

/-- What is found on the old program is as presumed. -/
def Admits (o : Outcome) : Prop := ∀ f ∈ o.findings, C.presumes f

/-- The outcomes differ only as the comparison says. -/
structure Matches (o o' : Outcome) : Prop where
  findings : C.finds o.findings o'.findings
  scopes : o'.scopes = o.scopes.map fun x => (C.stmt x.1, x.2)
  diagnostics : o'.diagnostics = o.diagnostics.map (.map C.expr C.stmt)

/-- The second walk declares what the first one declares, and its outcome matches. -/
def Walks (w w' : Walk) : Prop :=
  ∀ env, C.Admits (w env).1 → (w' env).2 = (w env).2 ∧ C.Matches (w env).1 (w' env).1

/-- Typing the second term gives the type of the first one, and the outcome matches. -/
def Terms (L : Lexicon) (T T' : Term Mark) : Prop :=
  ∀ env, C.Admits (L.evaluate [T] env).1 →
    (L.judge env T').label.type = (L.judge env T).label.type ∧
      C.Matches (L.evaluate [T] env).1 (L.evaluate [T'] env).1

variable {C}

theorem Admits.left (h : C.Admits (o ++ q)) : C.Admits o := fun f hf =>
  h f (List.mem_append_left _ hf)

theorem Admits.right (h : C.Admits (o ++ q)) : C.Admits q := fun f hf =>
  h f (List.mem_append_right _ hf)

namespace Matches

theorem empty (C : Comparison) : C.Matches {} {} := ⟨C.nil, rfl, rfl⟩

theorem append (h : C.Matches o o') (h' : C.Matches q q') : C.Matches (o ++ q) (o' ++ q') where
  findings := C.append h.findings h'.findings
  scopes := by simp only [Outcome.scopes_append, List.map_append, h.scopes, h'.scopes]
  diagnostics := by
    simp only [Outcome.diagnostics_append, List.map_append, h.diagnostics, h'.diagnostics]

end Matches

/-! ## Steps -/

namespace Walks

theorem skip (C : Comparison) : C.Walks .skip .skip := fun _ _ => ⟨rfl, .empty C⟩

theorem declare (C : Comparison) (definitions : List Definition) :
    C.Walks (.declare definitions) (.declare definitions) := fun _ _ => ⟨rfl, .empty C⟩

theorem report (C : Comparison) (s : StmtId) (issues : List Issue) :
    C.Walks (.report s issues) (.report (C.stmt s) issues) := fun _ _ =>
  ⟨rfl, C.nil, rfl, by simp [Walk.report, Diagnostic.map, NodeId.map]⟩

theorem andThen (hw : C.Walks w w') (hv : C.Walks v v') :
    C.Walks (w.andThen v) (w'.andThen v') := by
  intro env hadmits
  obtain ⟨henv, hmatch⟩ := hw env hadmits.left
  obtain ⟨henv', hmatch'⟩ := hv (w env).2 hadmits.right
  refine ⟨?_, ?_⟩
  · show (v' (w' env).2).2 = (v (w env).2).2
    rw [henv, henv']
  · show C.Matches ((w env).1 ++ (v (w env).2).1) ((w' env).1 ++ (v' (w' env).2).1)
    rw [henv]
    exact hmatch.append hmatch'

theorem framed (h : C.Walks w w') (s : StmtId) (initial : Scope) :
    C.Walks (.framed s initial w) (.framed (C.stmt s) initial w') := by
  intro env hadmits
  obtain ⟨henv, hmatch⟩ := h (initial :: env) hadmits.left
  refine ⟨congrArg List.tail henv, hmatch.append ⟨C.nil, ?_, rfl⟩⟩
  rw [henv]
  rfl

end Walks
end Comparison

namespace Lexicon

variable (L : Lexicon) {C : Comparison} {opens opens' : Program → Bool} {α β : Type}
  {F F' : α → Term Mark} {G G' : β → Program}

theorem evaluate_compares {xs : List α} (h : ∀ x ∈ xs, C.Terms L (F x) (F' x)) :
    C.Walks (L.evaluate (xs.map F)) (L.evaluate (xs.map F')) := by
  intro env hadmits
  refine ⟨rfl, ?_⟩
  induction xs with
  | nil => exact .empty C
  | cons x rest ih =>
    rw [List.map_cons, evaluate_cons] at hadmits
    rw [List.map_cons, List.map_cons, evaluate_cons, L.evaluate_cons (F' x)]
    exact (h x List.mem_cons_self env hadmits.left).2.append
      (ih (fun y hy => h y (List.mem_cons_of_mem _ hy)) hadmits.right)

theorem walkAll_compares {xs : List β}
    (h : ∀ x ∈ xs, C.Walks (L.walk opens (G x) {}) (L.walk opens' (G' x) {})) :
    C.Walks (L.walkAll opens (xs.map G)) (L.walkAll opens' (xs.map G')) := by
  induction xs with
  | nil => exact .skip C
  | cons x rest ih =>
    rw [List.map_cons, List.map_cons, walkAll, walkAll]
    exact (h x List.mem_cons_self).andThen (ih fun y hy => h y (List.mem_cons_of_mem _ hy))

/-- The loop's variable has the same type, so the walks through the body start alike. -/
theorem forIn_compares (s : StmtId) (pattern : Pattern) {T T' : Term Mark} {P P' : Program}
    (hloop : opens' ⟨C.stmt s, .forIn pattern T' P'⟩ = opens ⟨s, .forIn pattern T P⟩)
    (hbody : opens' P' = opens P) (hT : C.Terms L T T')
    (hP : ∀ initial, C.Walks (L.walk opens P initial) (L.walk opens' P' initial)) :
    C.Walks (L.walkInside opens s (.forIn pattern T P))
      (L.walkInside opens' (C.stmt s) (.forIn pattern T' P')) := by
  intro env hadmits
  rw [walkInside] at hadmits
  have hiterated : C.Walks (L.evaluate [T]) (L.evaluate [T']) := fun env h => ⟨rfl, (hT env h).2⟩
  have htype := (hT env hadmits.left.left).1
  rw [walkInside, walkInside]
  simp only [htype, hloop, hbody]
  refine (hiterated.andThen (.report C s _)).andThen ?_ env hadmits
  split_ifs
  · exact hP _
  · exact (Comparison.Walks.declare C _).andThen (hP _)
  · exact hP _

/-- Walks through two statements compare if those through their expressions and inner statements
do. -/
theorem walkInside_compares (s : StmtId) {k : Stmt α β}
    (hself : opens' ⟨C.stmt s, k.map F' G'⟩ = opens ⟨s, k.map F G⟩)
    (hopens : ∀ t ∈ k.stmtSlots, opens' (G' t) = opens (G t))
    (hexpr : ∀ x ∈ k.exprSlots, C.Terms L (F x) (F' x))
    (hstmt : ∀ t ∈ k.stmtSlots, ∀ initial,
      C.Walks (L.walk opens (G t) initial) (L.walk opens' (G' t) initial)) :
    C.Walks (L.walkInside opens s (k.map F G)) (L.walkInside opens' (C.stmt s) (k.map F' G')) := by
  have ordinary : C.Walks
      ((L.evaluate (k.exprSlots.map F)).andThen (L.walkAll opens (k.stmtSlots.map G)))
      ((L.evaluate (k.exprSlots.map F')).andThen (L.walkAll opens' (k.stmtSlots.map G'))) :=
    (L.evaluate_compares hexpr).andThen (L.walkAll_compares fun t ht => hstmt t ht {})
  cases k with
  | block body => exact L.walkAll_compares fun t ht => hstmt t ht {}
  | conditional c body otherwise =>
    rw [Stmt.map, Stmt.map, walkInside_conditional, walkInside_conditional, Option.toList_map,
      Option.toList_map]
    exact ordinary
  | whileLoop c body =>
    rw [Stmt.map, Stmt.map, walkInside_whileLoop, walkInside_whileLoop]
    exact ordinary
  | forIn pattern x body =>
    exact L.forIn_compares s pattern hself (hopens body (List.mem_singleton.2 rfl))
      (hexpr x (List.mem_singleton.2 rfl)) (hstmt body (List.mem_singleton.2 rfl))
  | «variables» declarations =>
    have h := L.evaluate_compares hexpr
    rw [← Stmt.exprSlots_map F G, ← Stmt.exprSlots_map F' G'] at h
    rw [Stmt.map, Stmt.map] at h ⊢
    rw [walkInside, walkInside, List.map_map, List.map_map]
    exact (Comparison.Walks.declare C _).andThen h
  | expressions items => exact L.evaluate_compares hexpr
  | returning value =>
    have h := L.evaluate_compares hexpr
    rw [Stmt.exprSlots, ← Option.toList_map, ← Option.toList_map] at h
    exact h
  | breaking | continuing => exact .skip C

/-- Walks through the programs of two arenas compare if below the root the second arena has the
renamed statements of the first one, and `place` in the slots of the expressions. -/
theorem walk_compares {a b : Arena} (wf : a.WellFormed) {place : ExprId → ExprId} {root : StmtId}
    (hroot : a.contains (.stmt root))
    (howns : ∀ s, a.Below (.stmt root) (.stmt s) → b.owns (C.stmt s) = a.owns s)
    (hprogram : ∀ s node, a.Below (.stmt root) (.stmt s) → a.stmt s = .ok node →
      b.program (C.stmt s) = ⟨C.stmt s, node.kind.map (fun y => b.term (place y))
        fun t => b.program (C.stmt t)⟩)
    (hterm : ∀ s x, a.Below (.stmt root) (.stmt s) → a.Child (.stmt s) (.expr x) →
      C.Terms L (a.term x) (b.term (place x))) (initial : Scope) :
    C.Walks (L.walk a.opens (a.program root) initial)
      (L.walk b.opens (b.program (C.stmt root)) initial) := by
  suffices ∀ s, a.contains (.stmt s) → a.Below (.stmt root) (.stmt s) → ∀ initial,
      C.Walks (L.walk a.opens (a.program s) initial)
        (L.walk b.opens (b.program (C.stmt s)) initial) from this root hroot (.refl _) initial
  intro s
  induction s using wf.stmt_induct with
  | node s ih =>
    intro hs hbelow initial
    obtain ⟨node, hnode⟩ := Arena.exists_stmt hs
    have hopens : ∀ t, a.Below (.stmt root) (.stmt t) →
        b.opens (b.program (C.stmt t)) = a.opens (a.program t) := by
      intro t ht
      rw [Arena.opens, Arena.opens, Arena.program_id, Arena.program_id, howns t ht]
    have hself := hopens s hbelow
    have hinside : C.Walks (L.walkInside a.opens s (node.kind.map a.term a.program))
        (L.walkInside b.opens (C.stmt s)
          (node.kind.map (fun y => b.term (place y)) fun t => b.program (C.stmt t))) := by
      refine L.walkInside_compares s (howns s hbelow) (fun t ht => ?_) (fun x hx => ?_)
        fun t ht initial => ?_
      · exact hopens t (hbelow.tail ((Arena.child_stmt_iff hnode).2 (.inr ⟨t, ht, rfl⟩)))
      · exact hterm s x hbelow ((Arena.child_stmt_iff hnode).2 (.inl ⟨x, hx, rfl⟩))
      · have hchild := (Arena.child_stmt_iff hnode).2 (.inr ⟨t, ht, rfl⟩)
        exact ih t hchild (wf.contains_child _ _ hchild) (hbelow.tail hchild) initial
    rw [L.walk_eq, L.walk_eq, hself, Arena.program_id, Arena.program_id, wf.program_eq hnode,
      hprogram s node hbelow hnode]
    split_ifs
    · exact hinside.framed s initial
    · exact hinside

end Lexicon
end ExprTyping
