import ExprTyping.Proofs.Syntax.Term
import ExprTyping.Typing.Judgement

/-!
# Typing terms in an environment

The walks of the library write declared names on the statements of a tree and climb through the
tree to find them. Here a term is typed against an environment instead: the scopes around it,
innermost first (`Lexicon.judge`). No node is looked up and no note is read.

* `Lexicon.meaning?` is the meaning of a name in an environment.
* `Lexicon.judge` labels every node of a term with the verdict on it.
* `Term.findings` lists the notes that these verdicts leave. A call settles the note on its callee
  (`Term.noteOn`); every other note is the node's own.
-/

namespace ExprTyping

/-! ## Environments -/

/-- The scopes around a place, innermost first. -/
abbrev Env := List Scope

namespace Env

/-- The definition of a name in the innermost scope that declares it. -/
def find? (env : Env) (name : String) : Option Definition :=
  env.findSome? fun scope => scope.find? name

/-- Declares names in the innermost scope, the later ones winning; in no scope there is nothing to
declare. -/
def declare : Env → List Definition → Env
  | [], _ => []
  | scope :: rest, definitions => definitions.foldl Scope.record scope :: rest

theorem tail_declare (env : Env) (definitions : List Definition) :
    (env.declare definitions).tail = env.tail := by
  cases env <;> rfl

end Env

namespace Scope

variable {scope : Scope} {d x : Definition} {condition : Definition → Prop}

theorem mem_record (h : x ∈ (scope.record d).definitions) : x = d ∨ x ∈ scope.definitions := by
  suffices ∀ definitions, x ∈ insertDefinition d definitions → x = d ∨ x ∈ definitions from
    this _ h
  intro definitions
  induction definitions with
  | nil => exact fun h => .inl (List.mem_singleton.1 h)
  | cons other rest ih =>
    rw [insertDefinition]
    split_ifs
    · intro h
      exact (List.mem_cons.1 h).imp_right (List.mem_cons_of_mem _)
    · intro h
      rcases List.mem_cons.1 h with rfl | h
      · exact .inr List.mem_cons_self
      · exact (ih h).imp_right (List.mem_cons_of_mem _)

/-- All declared names satisfy the condition. -/
def All (condition : Definition → Prop) (scope : Scope) : Prop :=
  ∀ d ∈ scope.definitions, condition d

namespace All

theorem empty : All condition {} := fun _ h => absurd h List.not_mem_nil

theorem recordAll {definitions : List Definition} (h : scope.All condition)
    (hd : ∀ d ∈ definitions, condition d) :
    (definitions.foldl record scope).All condition := by
  induction definitions generalizing scope with
  | nil => exact h
  | cons d rest ih =>
    refine ih (fun x hx => ?_) fun x hx => hd x (List.mem_cons_of_mem _ hx)
    rcases mem_record hx with rfl | hx
    · exact hd _ List.mem_cons_self
    · exact h x hx

end All
end Scope

namespace Env

/-- All declared names satisfy the condition. -/
def All (condition : Definition → Prop) (env : Env) : Prop := ∀ scope ∈ env, scope.All condition

namespace All

variable {env : Env} {scope : Scope} {name : String} {d : Definition}
  {condition : Definition → Prop}

theorem cons (hscope : scope.All condition) (h : env.All condition) :
    Env.All condition (scope :: env) := by
  intro x hx
  rcases List.mem_cons.1 hx with rfl | hx
  · exact hscope
  · exact h x hx

theorem find? (h : env.All condition) (hd : env.find? name = some d) : condition d := by
  obtain ⟨scope, hscope, hd⟩ := List.exists_of_findSome?_eq_some hd
  exact h scope hscope d (List.mem_of_find?_eq_some hd)

theorem declare {definitions : List Definition} (h : env.All condition)
    (hd : ∀ d ∈ definitions, condition d) : (env.declare definitions).All condition := by
  cases env with
  | nil => exact h
  | cons scope rest =>
    exact cons ((h scope List.mem_cons_self).recordAll hd)
      fun x hx => h x (List.mem_cons_of_mem _ hx)

end All
end Env

/-- What gives names a meaning besides the scopes around them. -/
structure Lexicon where
  catalog : Catalog
  intrinsics : Intrinsics

namespace Lexicon

variable (L : Lexicon) (env : Env)

/-- The meaning of a name: an intrinsic, a declared name, an implicit member or a known type,
whichever comes first. -/
def meaning? (name : String) : Option Binding :=
  match L.intrinsics.definition? name with
  | some d => some (.defined d)
  | none =>
    match env.find? name with
    | some d => some (.defined d)
    | none =>
      match L.intrinsics.implicitMember? name with
      | some b => some b
      | none => (L.catalog.knownType? name).map fun k => .knownType k.typeName

end Lexicon

/-! ## Verdicts -/

/-- The outermost access of a chain with an optional link gives an optional. -/
def Mark.close (mark : Mark) (verdict : Verdict) : Verdict :=
  match verdict.type with
  | none => verdict
  | some type =>
    if type.isError || type.isOptional then verdict
    else if mark.closesChain then verdict.withType (some (.optional type))
    else verdict

/-- The term as an operand of the node above it. -/
def Term.operand (x : Term Verdict) : Operand := ⟨x.id, x.label.type⟩

namespace Lexicon

variable (L : Lexicon) (env : Env)

/-- A name has the type of its meaning. -/
def judgeName (name : String) : Verdict :=
  match L.meaning? env name with
  | some b => { note := { type := some b.type, binding := some b } }
  | none => .reported (.unknownIdentifier name)

/-- A member access. -/
def judgeMember (isCallee : Bool) (receiver : Operand) (name : String) : Verdict :=
  if receiver.isFailed then .failed
  else if name = Name.selfMember then .typed receiver.type
  else
    match receiver.type with
    | none => .failed
    | some type => Rule.property L.catalog type name isCallee

/-- A call. What is called decides the rule. -/
def judgeCall (callee : Term Verdict) (arguments : List (Argument (Term Verdict))) : Verdict :=
  if arguments.any (·.value.operand.isFailed) then .failed
  else
    match callee.shape with
    | .member receiver name =>
      Rule.memberCall L.catalog receiver.label.type name callee.label.note
        (argumentLabels arguments)
    | .identifier _ => Rule.nameCall L.catalog callee.label.type (argumentLabels arguments)
    | _ => unlessFailed [callee.operand] (.typed none)

/-- The verdict on an expression from the verdicts on its operands. -/
def verdict (mark : Mark) : Expr (Term Verdict) → Verdict
  | .identifier name => L.judgeName env name
  | .constant value => .typed (some (Rule.constant value))
  | .prefixed op x | .unary op x =>
    unlessFailed [x.operand] (.typed (Rule.unary op x.label.type))
  | .binary l op r =>
    unlessFailed [l.operand, r.operand] (.typed (Rule.binary op l.label.type r.label.type))
  | .assignment .. => .typed none
  | .cast x target => unlessFailed [x.operand] (.typed (some (Rule.cast x.label.type target)))
  | .ternary c t f =>
    unlessFailed [c.operand, t.operand, f.operand] (Rule.ternary t.label.type f.label.type)
  | .parens x => .typed x.label.type
  | .arrayLiteral items =>
    unlessFailed (items.map (·.operand))
      (.typed (some (Rule.arrayLiteral (items.map (·.label.type)))))
  | .dictionaryLiteral pairs =>
    unlessFailed (pairs.flatMap fun (key, value) => [key.operand, value.operand])
      (.typed (some (Rule.dictionaryLiteral (pairs.map fun (key, value) =>
        (key.label.type, value.label.type)))))
  | .member receiver name => mark.close (L.judgeMember mark.isCallee receiver.operand name)
  | .subscript receiver index =>
    mark.close (unlessFailed [receiver.operand, index.operand]
      (Rule.subscript L.catalog receiver.label.type index.label.type))
  | .call callee arguments => mark.close (L.judgeCall callee arguments)
  | .chain receiver =>
    mark.close (unlessFailed [receiver.operand] (.typed (receiver.label.type.map Ty.unwrapped)))

/-- Labels every node of a term with the verdict on it. -/
def judge : Term Mark → Term Verdict :=
  Term.fold fun T operands =>
    let operands := operands.map (·.2)
    ⟨T.id, L.verdict env T.label operands, operands⟩

theorem judge_eq (T : Term Mark) :
    L.judge env T =
      ⟨T.id, L.verdict env T.label (T.shape.map (L.judge env)), T.shape.map (L.judge env)⟩ := by
  rw [judge, Term.fold_eq]
  simp only [Expr.map_map]

@[simp] theorem judge_id (T : Term Mark) : (L.judge env T).id = T.id := by rw [judge_eq]

@[simp] theorem judge_shape (T : Term Mark) :
    (L.judge env T).shape = T.shape.map (L.judge env) := by rw [judge_eq]

theorem judge_label (T : Term Mark) :
    (L.judge env T).label = L.verdict env T.label (T.shape.map (L.judge env)) := by rw [judge_eq]

end Lexicon

/-! ## What the verdicts leave -/

/-- A note and the expression it is on. -/
structure Finding where
  expr : ExprId
  note : ExprNote

namespace Term

/-- The note that is left on an operand: a call may settle the one on its callee. -/
def noteOn (J x : Term Verdict) : ExprNote :=
  if J.shape.callee?.map (·.id) = some x.id then J.label.callee.getD x.label.note
  else x.label.note

/-- The notes left on a term, each node before what is below it, if `note` is left on the term
itself. -/
def findings : Term Verdict → ExprNote → List Finding :=
  Term.fold fun J operands note =>
    ⟨J.id, note⟩ :: operands.slots.flatMap fun (x, below) => below (J.noteOn x)

/-- What is reported about a term, after what is reported about its operands. -/
def diagnostics : Term Verdict → List Diagnostic :=
  Term.fold fun J operands =>
    operands.slots.flatMap (·.2) ++ (J.label.issue.map (⟨·, .expr J.id⟩)).toList

theorem findings_eq (J : Term Verdict) (note : ExprNote) :
    J.findings note =
      ⟨J.id, note⟩ :: J.shape.slots.flatMap fun x => x.findings (J.noteOn x) := by
  rw [findings, Term.fold_eq]
  simp only [Expr.slots_map, List.flatMap_map]

theorem diagnostics_eq (J : Term Verdict) :
    J.diagnostics =
      J.shape.slots.flatMap diagnostics ++ (J.label.issue.map (⟨·, .expr J.id⟩)).toList := by
  rw [diagnostics, Term.fold_eq]
  simp only [Expr.slots_map, List.flatMap_map]

theorem mem_findings {J : Term Verdict} {note : ExprNote} {f : Finding} :
    f ∈ J.findings note ↔
      f = ⟨J.id, note⟩ ∨ ∃ x ∈ J.shape.slots, f ∈ x.findings (J.noteOn x) := by
  rw [findings_eq, List.mem_cons, List.mem_flatMap]

end Term

namespace Lexicon

variable {L : Lexicon} {env : Env} {T x : Term Mark} {note : ExprNote} {f : Finding}

theorem judge_mem_slots (hx : x ∈ T.shape.slots) :
    L.judge env x ∈ (L.judge env T).shape.slots := by
  rw [judge_shape, Expr.slots_map]
  exact List.mem_map.2 ⟨x, hx, rfl⟩

/-- What is found on a term is left on the term itself or found on one of its operands. -/
theorem mem_findings : f ∈ (L.judge env T).findings note ↔
    f = ⟨T.id, note⟩ ∨ ∃ x ∈ T.shape.slots,
      f ∈ (L.judge env x).findings ((L.judge env T).noteOn (L.judge env x)) := by
  rw [Term.mem_findings, judge_id, judge_shape, Expr.slots_map]
  simp only [List.mem_map, exists_exists_and_eq_and]

theorem own_mem_findings : ⟨T.id, note⟩ ∈ (L.judge env T).findings note :=
  mem_findings.2 (.inl rfl)

theorem mem_findings_of_operand (hx : x ∈ T.shape.slots)
    (hf : f ∈ (L.judge env x).findings ((L.judge env T).noteOn (L.judge env x))) :
    f ∈ (L.judge env T).findings note :=
  mem_findings.2 (.inr ⟨x, hx, hf⟩)

end Lexicon
end ExprTyping
