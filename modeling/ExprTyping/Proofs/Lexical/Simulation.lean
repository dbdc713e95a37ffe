import ExprTyping.Proofs.Lexical.Legs

/-!
# Walks that find the same

Two walks through one program may start in different environments, or use different lexicons, and
still find the same. A `Lexicon.Simulation` says when: it relates the environments, and in related
environments every expression gets the same verdicts and every loop variable the same type. All that
a walk puts into an environment, the names declared by a program and the variables of loops, has to
keep the environments related; a condition bounds what can be put there.

Then the walks find the same (`Lexicon.Simulation.walk`).
-/

namespace ExprTyping

/-- The variables that a program itself declares are written in its statement. -/
theorem Arena.Holds.exists_declaration {a : Arena} {P : Program} (hP : a.Holds P) {d : Definition}
    (hd : d ∈ P.shape.declared) : ∃ node declarations, a.stmt P.id = .ok node ∧
      node.kind = .variables declarations ∧ ∃ x ∈ declarations, d = ⟨x.name, x.type⟩ := by
  obtain ⟨parent, ownsScope, hnode⟩ := hP.exists_node
  cases hk : P.shape with
  | «variables» declarations =>
    rw [hk] at hd hnode
    obtain ⟨x, hx, rfl⟩ := List.mem_map.1 hd
    exact ⟨_, _, hnode, rfl, x.map (·.id), List.mem_map.2 ⟨x, hx, rfl⟩, rfl⟩
  | _ => rw [hk] at hd; cases hd

/-- What holds of the variables that each statement of a program declares holds of those that the
program declares around itself. -/
theorem Arena.Holds.forall_declares {a : Arena} {P : Program} (hP : a.Holds P)
    (opens : Program → Bool) {holds : Definition → Prop}
    (h : ∀ Q, a.Holds Q → a.Below (.stmt P.id) (.stmt Q.id) → ∀ d ∈ Q.shape.declared, holds d) :
    ∀ d ∈ P.declares opens, holds d := by
  induction P using Program.induct with
  | node P ih =>
    intro d hd
    rw [Program.declares_eq] at hd
    split_ifs at hd
    · cases hd
    rcases List.mem_append.1 hd with hd | hd
    · exact h P hP (.refl _) d hd
    · obtain ⟨Q, hQ, hd⟩ := List.mem_flatMap.1 hd
      exact ih Q hQ (hP.stmt hQ)
        (fun R hR hbelow => h R hR (.of_child (hP.child_stmt hQ) hbelow)) d hd

namespace Lexicon

/-- Below the node, `L'` in an environment on the right judges as `L` does in the related one on the
left, and what is declared on the way keeps the environments related. -/
structure Simulation (L L' : Lexicon) (a : Arena) (n : NodeId) (condition : Definition → Prop)
    (related : Env → Env → Prop) : Prop where
  cons : ∀ {env env'} {scope : Scope}, related env env' → scope.All condition →
    related (scope :: env) (scope :: env')
  declare : ∀ {env env'} {definitions : List Definition}, related env env' →
    (∀ d ∈ definitions, condition d) →
    related (env.declare definitions) (env'.declare definitions)
  declared : ∀ P, a.Holds P → a.Below n (.stmt P.id) → ∀ d ∈ P.shape.declared, condition d
  judge : ∀ {env env'} T, a.HoldsTerm T → a.Below n (.expr T.id) → related env env' →
    L'.judge env' T = L.judge env T
  loopElement : ∀ {env env'} T, a.HoldsTerm T → a.Below n (.expr T.id) → related env env' →
    Rule.loopElement L'.catalog (L.judge env T).label.type =
        Rule.loopElement L.catalog (L.judge env T).label.type ∧
      ∀ name, condition ⟨name, (Rule.loopElement L.catalog (L.judge env T).label.type).1⟩

namespace Simulation

variable {L L' : Lexicon} {a : Arena} {n : NodeId} {condition : Definition → Prop}
  {related : Env → Env → Prop} {opens : Program → Bool} {env env' : Env} {P : Program}
  {Ts : List (Term Mark)} {Ps : List Program}

/-- Typing the terms finds the same if each gets the same verdicts. -/
theorem evaluate (hTs : ∀ T ∈ Ts, L'.judge env' T = L.judge env T) :
    (L'.evaluate Ts env').1 = (L.evaluate Ts env).1 := by
  induction Ts with
  | nil => rfl
  | cons T rest ih =>
    rw [evaluate_cons, evaluate_cons L, ih fun x hx => hTs x (List.mem_cons_of_mem _ hx)]
    simp only [Lexicon.evaluate, List.flatMap_cons, List.flatMap_nil, hTs T List.mem_cons_self]

variable (h : Simulation L L' a n condition related)
include h

/-- Declaring what a program declares around itself keeps the environments related. -/
theorem declares (hP : a.Holds P) (hn : a.Below n (.stmt P.id)) (henv : related env env') :
    related (env.declare (P.declares opens)) (env'.declare (P.declares opens)) :=
  h.declare henv (hP.forall_declares opens fun Q hQ hbelow => h.declared Q hQ (hn.trans hbelow))

theorem walkAll (hheld : ∀ P ∈ Ps, a.Holds P ∧ a.Below n (.stmt P.id))
    (hPs : ∀ P ∈ Ps, ∀ {env env'}, related env env' →
      (L'.walk opens P {} env').1 = (L.walk opens P {} env).1) (henv : related env env') :
    (L'.walkAll opens Ps env').1 = (L.walkAll opens Ps env).1 := by
  induction Ps generalizing env env' with
  | nil => rfl
  | cons P rest ih =>
    obtain ⟨hP, hn⟩ := hheld P List.mem_cons_self
    rw [Lexicon.walkAll, Lexicon.walkAll]
    show (L'.walk opens P {} env').1 ++ (L'.walkAll opens rest (L'.walk opens P {} env').2).1 =
      (L.walk opens P {} env).1 ++ (L.walkAll opens rest (L.walk opens P {} env).2).1
    rw [hPs P List.mem_cons_self henv, walk_env, walk_env,
      ih (fun Q hQ => hheld Q (List.mem_cons_of_mem _ hQ))
        (fun Q hQ => hPs Q (List.mem_cons_of_mem _ hQ)) (h.declares hP hn henv)]

theorem evaluate_walkAll (hTs : ∀ T ∈ Ts, L'.judge env' T = L.judge env T)
    (hheld : ∀ P ∈ Ps, a.Holds P ∧ a.Below n (.stmt P.id))
    (hPs : ∀ P ∈ Ps, ∀ {env env'}, related env env' →
      (L'.walk opens P {} env').1 = (L.walk opens P {} env).1) (henv : related env env') :
    ((L'.evaluate Ts).andThen (L'.walkAll opens Ps) env').1 =
      ((L.evaluate Ts).andThen (L.walkAll opens Ps) env).1 := by
  show (L'.evaluate Ts env').1 ++ (L'.walkAll opens Ps env').1 =
    (L.evaluate Ts env).1 ++ (L.walkAll opens Ps env).1
  rw [evaluate hTs, h.walkAll hheld hPs henv]

/-- What is inside a statement is found alike if what is inside its inner statements is. -/
theorem walkInside (hP : a.Holds P) (hn : a.Below n (.stmt P.id))
    (hstmt : ∀ Q ∈ P.shape.stmtSlots, ∀ initial : Scope, initial.All condition →
      ∀ {env env'}, related env env' →
        (L'.walk opens Q initial env').1 = (L.walk opens Q initial env).1)
    (henv : related env env') :
    (L'.walkInside opens P.id P.shape env').1 = (L.walkInside opens P.id P.shape env).1 := by
  have hexpr : ∀ T ∈ P.shape.exprSlots, ∀ {env env'}, related env env' →
      L'.judge env' T = L.judge env T := fun T hT _ _ =>
    h.judge T (hP.expr hT) (hn.tail (hP.child_expr hT))
  have hheld : ∀ Q ∈ P.shape.stmtSlots, a.Holds Q ∧ a.Below n (.stmt Q.id) := fun Q hQ =>
    ⟨hP.stmt hQ, hn.tail (hP.child_stmt hQ)⟩
  have hloop : ∀ T ∈ P.shape.exprSlots, _ := fun T hT => h.loopElement T (hP.expr hT)
    (hn.tail (hP.child_expr hT)) henv
  have hdeclared := h.declared P hP hn
  obtain ⟨id, shape⟩ := P
  cases shape with
  | block body => exact h.walkAll hheld (fun Q hQ => hstmt Q hQ {} .empty) henv
  | conditional c body otherwise =>
    rw [walkInside_conditional, walkInside_conditional]
    exact h.evaluate_walkAll (fun T hT => hexpr T hT henv) hheld
      (fun Q hQ => hstmt Q hQ {} .empty) henv
  | whileLoop c body =>
    rw [walkInside_whileLoop, walkInside_whileLoop]
    exact h.evaluate_walkAll (fun T hT => hexpr T hT henv) hheld
      (fun Q hQ => hstmt Q hQ {} .empty) henv
  | forIn pattern x body =>
    have hx : L'.judge env' x = L.judge env x := hexpr x (List.mem_singleton.2 rfl) henv
    obtain ⟨hsame, helement⟩ := hloop x (List.mem_singleton.2 rfl)
    have hbody : ∀ initial : Scope, initial.All condition → ∀ {env env'}, related env env' →
        (L'.walk opens body initial env').1 = (L.walk opens body initial env).1 :=
      hstmt body (List.mem_singleton.2 rfl)
    have hbound : ∀ d ∈ pattern.bound (Rule.loopElement L.catalog (L.judge env x).label.type).1,
        condition d := by
      intro d hd
      cases pattern with
      | identifier name =>
        obtain rfl := List.mem_singleton.1 hd
        exact helement name
      | wildcard | tuple => cases hd
    rw [Lexicon.walkInside, Lexicon.walkInside]
    simp only [Walk.andThen, Lexicon.evaluate, Walk.report, List.flatMap_cons, List.flatMap_nil, hx,
      hsame]
    split_ifs
    · rw [hbody _ (.recordAll .empty hbound) henv]
    · dsimp only [Walk.andThen, Walk.declare]
      rw [hbody _ .empty (h.declare henv hbound)]
    · rw [hbody _ .empty henv]
  | «variables» declarations =>
    exact evaluate fun T hT => hexpr T hT (h.declare henv hdeclared)
  | expressions items => exact evaluate fun T hT => hexpr T hT henv
  | returning value => exact evaluate fun T hT => hexpr T hT henv
  | breaking | continuing => rfl

/-- A program declares the same in its own frame. -/
theorem inner (hP : a.Holds P) (hn : a.Below n (.stmt P.id)) (henv : related env env') :
    L'.inner opens P env' = L.inner opens P env := by
  have hexpr : ∀ T ∈ P.shape.exprSlots, _ := fun T hT =>
    let hbelow := hn.tail (hP.child_expr hT)
    And.intro (h.judge T (hP.expr hT) hbelow henv) (h.loopElement T (hP.expr hT) hbelow henv).1
  obtain ⟨id, shape⟩ := P
  cases shape with
  | forIn pattern x body =>
    obtain ⟨hx, hsame⟩ := hexpr x (List.mem_singleton.2 rfl)
    simp only [Lexicon.inner, loopBound, hx, hsame]
  | _ => rfl

/-- Walks that start in related environments find the same. -/
theorem walk (hP : a.Holds P) (hn : a.Below n (.stmt P.id)) {initial : Scope}
    (hinitial : initial.All condition) (henv : related env env') :
    (L'.walk opens P initial env').1 = (L.walk opens P initial env).1 := by
  induction P using Program.induct generalizing initial env env' with
  | node P ih =>
    have hstmt : ∀ Q ∈ P.shape.stmtSlots, ∀ initial : Scope, initial.All condition →
        ∀ {env env'}, related env env' →
          (L'.walk opens Q initial env').1 = (L.walk opens Q initial env).1 :=
      fun Q hQ _ hinitial _ _ henv => ih Q hQ (hP.stmt hQ)
        (hn.tail (hP.child_stmt hQ)) hinitial henv
    rw [walk_eq, walk_eq]
    split_ifs
    · -- the popped frame is that of the statement, with what is declared in it
      have hframed := h.cons henv hinitial
      show (L'.walkInside opens P.id P.shape (initial :: env')).1 ++ { scopes := [(P.id,
          (L'.walkInside opens P.id P.shape (initial :: env')).2.headD {})] } =
        (L.walkInside opens P.id P.shape (initial :: env)).1 ++ { scopes := [(P.id,
          (L.walkInside opens P.id P.shape (initial :: env)).2.headD {})] }
      rw [h.walkInside hP hn hstmt hframed,
        L.walkInside_env opens fun Q _ => L.walk_env opens Q,
        L'.walkInside_env opens fun Q _ => L'.walk_env opens Q,
        h.inner hP hn hframed]
      rfl
    · exact h.walkInside hP hn hstmt henv

end Simulation
end Lexicon
end ExprTyping
