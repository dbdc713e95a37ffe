import ExprTyping.Proofs.Lexical.Simulation

/-!
# Declaring again what is declared

A program that declares variables in the frame around it leaves that frame changed, so a second walk
through the same program may start in other surroundings than the first. Two facts bound the
difference.

* To declare the same list twice is to declare it once (`Env.declare_declare`): a definition stays
  where it stands in its scope, and the last one of its name counts. The second walk therefore
  leaves the frame as it found it.
* A walk depends on its environment only through the names that its program mentions
  (`Lexicon.walk_congr`).
-/

namespace ExprTyping

/-! ## Recording twice -/

namespace Scope

variable {scope : Scope} {d x : Definition}

/-- The later of two definitions of one name takes the place of the earlier. -/
theorem record_record_of_eq (scope : Scope) (h : x.name = d.name) :
    (scope.record d).record x = scope.record x := by
  simp only [record, Scope.mk.injEq]
  induction scope.definitions with
  | nil => simp [insertDefinition, h]
  | cons other rest ih =>
    by_cases hd : other.name = d.name
    · simp [insertDefinition, hd, h]
    · simp [insertDefinition, hd, h, ih]

/-- Definitions of two names can be recorded in either order, if one of the names is declared
already. -/
theorem record_comm (h : x.name ≠ d.name) (hx : scope.find? x.name ≠ none) :
    (scope.record d).record x = (scope.record x).record d := by
  obtain ⟨definitions⟩ := scope
  simp only [record, Scope.mk.injEq]
  induction definitions with
  | nil => exact absurd rfl hx
  | cons other rest ih =>
    by_cases hd : other.name = d.name
    · simp [insertDefinition, hd, Ne.symm h]
    · by_cases hox : other.name = x.name
      · simp [insertDefinition, hox, h]
      · have hrest : Scope.find? ⟨rest⟩ x.name ≠ none := by
          simpa [find?, List.find?_cons, hox] using hx
        simp [insertDefinition, hd, hox, ih hrest]

theorem find?_record_ne_none {name : String} (h : scope.find? name ≠ none) (d : Definition) :
    (scope.record d).find? name ≠ none := by
  by_cases hd : name = d.name
  · rw [hd, find?_record_self]
    exact Option.some_ne_none d
  · rwa [find?_record_of_ne hd]

theorem find?_recordAll_ne_none {name : String} (ds : List Definition)
    (h : scope.find? name ≠ none ∨ ∃ d ∈ ds, d.name = name) :
    (ds.foldl record scope).find? name ≠ none := by
  induction ds generalizing scope with
  | nil => simpa using h
  | cons x rest ih =>
    rw [List.foldl_cons]
    apply ih
    rcases h with h | ⟨d, hd, rfl⟩
    · exact .inl (find?_record_ne_none h x)
    · rcases List.mem_cons.1 hd with rfl | hd
      · left
        rw [find?_record_self]
        exact Option.some_ne_none d
      · exact .inr ⟨d, hd, rfl⟩

/-- A definition that is recorded last need not be recorded before, if only declared names are
recorded in between. -/
theorem record_recordAll_record {ds : List Definition} (h : ∀ x ∈ ds, scope.find? x.name ≠ none)
    (d : Definition) :
    (ds.foldl record (scope.record d)).record d = (ds.foldl record scope).record d := by
  induction ds generalizing scope with
  | nil => exact record_record_of_eq scope rfl
  | cons x rest ih =>
    simp only [List.foldl_cons]
    by_cases hx : x.name = d.name
    · rw [record_record_of_eq scope hx]
    · rw [record_comm hx (h x List.mem_cons_self), ih]
      exact fun y hy => find?_record_ne_none (h y (List.mem_cons_of_mem _ hy)) x

/-- To record the same list of definitions twice is to record it once. -/
theorem recordAll_recordAll (scope : Scope) (ds : List Definition) :
    ds.foldl record (ds.foldl record scope) = ds.foldl record scope := by
  induction ds using List.reverseRecOn with
  | nil => rfl
  | append_singleton ds d ih =>
    simp only [List.foldl_append, List.foldl_cons, List.foldl_nil]
    rw [record_recordAll_record fun x hx => find?_recordAll_ne_none ds (.inr ⟨x, hx, rfl⟩), ih]

end Scope

namespace Env

/-- To declare the same names twice is to declare them once. -/
theorem declare_declare (env : Env) (ds : List Definition) :
    (env.declare ds).declare ds = env.declare ds := by
  cases env with
  | nil => rfl
  | cons scope rest => rw [declare, declare, Scope.recordAll_recordAll]

/-! ## Environments that agree on some names -/

/-- The environments have the same definitions of the names in question, and both or neither have a
frame in which names can be declared. -/
structure Alike (names : String → Prop) (env env' : Env) : Prop where
  find?_eq : ∀ name, names name → env.find? name = env'.find? name
  nil_iff : env = [] ↔ env' = []

namespace Alike

variable {names : String → Prop} {env env' : Env}

/-- The same frame around the same names. -/
theorem cons (h : Alike names env env') (scope : Scope) :
    Alike names (scope :: env) (scope :: env') where
  find?_eq name hname := by
    have hfind := h.find?_eq name hname
    rw [Env.find?] at hfind
    simp only [Env.find?, List.findSome?_cons, hfind]
  nil_iff := by simp

theorem declare (h : Alike names env env') (ds : List Definition) :
    Alike names (env.declare ds) (env'.declare ds) := by
  induction ds generalizing env env' with
  | nil => rwa [declare_nil, declare_nil]
  | cons d rest ih =>
    rw [← List.singleton_append, declare_append, declare_append]
    apply ih
    rcases env with _ | ⟨scope, outer⟩
    · rw [h.nil_iff.1 rfl]
      exact ⟨fun _ _ => rfl, .rfl⟩
    · obtain ⟨scope', outer', rfl⟩ : ∃ scope' outer', env' = scope' :: outer' :=
        List.exists_cons_of_ne_nil fun h' => by simpa using h.nil_iff.2 h'
      refine ⟨fun name hname => ?_, by simp [Env.declare]⟩
      have hfind := h.find?_eq name hname
      simp only [Env.find?, Env.declare, List.foldl_cons, List.foldl_nil, List.findSome?_cons]
        at hfind ⊢
      by_cases hd : name = d.name
      · rw [hd, Scope.find?_record_self, Scope.find?_record_self]
      · rw [Scope.find?_record_of_ne hd, Scope.find?_record_of_ne hd, hfind]

end Alike
end Env

/-! ## What a walk depends on -/

namespace Arena

variable {a : Arena} {T x : Term Mark} {P Q : Program} {name : String}

/-- The name is that of an identifier below the node. -/
def Mentions (a : Arena) (n : NodeId) (name : String) : Prop :=
  ∃ e node, a.Below n (.expr e) ∧ a.expr e = .ok node ∧ node.kind = .identifier name

theorem Mentions.of_below {p c : NodeId} (h : a.Mentions c name) (hc : a.Below p c) :
    a.Mentions p name := by
  obtain ⟨e, node, he, hnode, hk⟩ := h
  exact ⟨e, node, hc.trans he, hnode, hk⟩

theorem Mentions.of_child {p c : NodeId} (hc : a.Child p c) (h : a.Mentions c name) :
    a.Mentions p name := h.of_below (.single hc)

theorem HoldsTerm.mentions (hT : a.HoldsTerm T) (hk : T.shape = .identifier name) :
    a.Mentions (.expr T.id) name := by
  obtain ⟨parent, hnode⟩ := hT.exists_node
  exact ⟨T.id, _, .refl _, hnode, by rw [hk, Expr.map]⟩

end Arena

namespace Lexicon

variable (L : Lexicon) {opens : Program → Bool} {a : Arena} {names : String → Prop}
  {env env' : Env}

/-- The verdict on a name is the only one for which the environment counts. -/
theorem verdict_congr (mark : Mark) {k : Expr (Term Verdict)}
    (h : ∀ name, k = .identifier name → L.meaning? env name = L.meaning? env' name) :
    L.verdict env mark k = L.verdict env' mark k := by
  cases k with
  | identifier name => rw [verdict, verdict, judgeName, judgeName, h name rfl]
  | _ => rfl

/-- Verdicts depend on the environment only through the meaning of the names that the term
mentions. -/
theorem judge_congr_meaning {T : Term Mark} (hT : a.HoldsTerm T)
    (h : ∀ name, a.Mentions (.expr T.id) name → L.meaning? env name = L.meaning? env' name) :
    L.judge env T = L.judge env' T := by
  induction T using Term.induct with
  | node T ih =>
    have hoperands : T.shape.map (L.judge env) = T.shape.map (L.judge env') :=
      Expr.map_congr fun x hx => ih x hx (hT.operand hx) fun name hname =>
        h name (hname.of_child (hT.child hx))
    rw [judge_eq, judge_eq, hoperands]
    congr 1
    exact L.verdict_congr T.label fun name hk =>
      h name (hT.mentions (Expr.map_eq_identifier.1 hk))

theorem judge_congr {T : Term Mark} (hT : a.HoldsTerm T)
    (hnames : ∀ name, a.Mentions (.expr T.id) name → names name) (h : env.Alike names env') :
    L.judge env T = L.judge env' T := by
  refine L.judge_congr_meaning hT fun name hname => ?_
  rw [meaning?, meaning?, h.find?_eq name (hnames name hname)]

/-- A walk depends on its environment only through the names that the program mentions. -/
theorem walk_congr {P : Program} (hP : a.Holds P)
    (hnames : ∀ name, a.Mentions (.stmt P.id) name → names name) (initial : Scope)
    (h : env.Alike names env') :
    (L.walk opens P initial env).1 = (L.walk opens P initial env').1 := by
  have simulation : Simulation L L a (.stmt P.id) (fun _ => True) (Env.Alike names) := {
    cons := fun henv _ => henv.cons _
    declare := fun henv _ => henv.declare _
    declared := fun _ _ _ _ _ => trivial
    judge := fun T hT hbelow henv => (L.judge_congr hT
      (fun name hname => hnames name (hname.of_below hbelow)) henv).symm
    loopElement := fun _ _ _ _ => ⟨rfl, fun _ => trivial⟩ }
  exact (simulation.walk hP (.refl _) (fun _ _ => trivial) h).symm

end Lexicon
end ExprTyping
