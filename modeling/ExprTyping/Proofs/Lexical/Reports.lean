import ExprTyping.Proofs.Lexical.Verdicts
import Mathlib.Tactic.Common

/-!
# What is reported about an expression

A verdict that reports something says no more than that the expression failed and why
(`Lexicon.reports_verdict`). What is wrong with loops is never reported about an expression.
-/

namespace ExprTyping

/-- Whether the issue is about a loop, and not about an expression. -/
def Issue.concernsLoop : Issue → Bool
  | .unsupportedLoopPattern _ | .notIterable _ => true
  | _ => false

/-- Whether the issue is a type that a loop cannot iterate over. -/
def Issue.isNotIterable : Issue → Bool
  | .notIterable _ => true
  | _ => false

theorem Issue.concernsLoop_of_isWarning {i : Issue} (h : i.isWarning = true) :
    i.concernsLoop = true := by
  cases i <;> first | rfl | cases h

@[simp] theorem Mark.issue_close (mark : Mark) (v : Verdict) : (mark.close v).issue = v.issue := by
  unfold close
  repeat' split
  all_goals rfl

/-- If the verdict reports an issue, this is about the expression, and the verdict is that the
expression failed because of it. -/
def Verdict.Reports (v : Verdict) : Prop :=
  ∀ i, v.issue = some i → v = .reported i ∧ i.concernsLoop = false

namespace Verdict.Reports

theorem of_issue_eq_none {v : Verdict} (h : v.issue = none) : v.Reports := by
  intro i hi
  rw [h] at hi
  cases hi

theorem reported {i : Issue} (h : i.concernsLoop = false) : (Verdict.reported i).Reports := by
  rintro j ⟨⟩
  exact ⟨rfl, h⟩

theorem unlessFailed {operands : List Operand} {v : Verdict} (h : v.Reports) :
    (unlessFailed operands v).Reports := by
  unfold ExprTyping.unlessFailed
  split
  · exact of_issue_eq_none rfl
  · exact h

theorem close {mark : Mark} {v : Verdict} (h : v.Reports) : (mark.close v).Reports := by
  unfold Mark.close
  split
  · exact h
  · rename_i t ht
    split_ifs with herror hclose
    · exact h
    · intro i hi
      obtain ⟨rfl, -⟩ := h i hi
      cases ht
      exact absurd rfl herror
    · exact h

end Verdict.Reports

namespace Rule

variable {catalog : Catalog}

theorem reports_ternary {t f : Option Ty} : (ternary t f).Reports := by
  unfold ternary
  repeat' split
  all_goals first | exact .of_issue_eq_none rfl | exact .reported rfl

theorem reports_subscript {receiver index : Option Ty} :
    (subscript catalog receiver index).Reports := by
  unfold subscript integerSubscript
  repeat' split
  all_goals first | exact .of_issue_eq_none rfl | exact .reported rfl

theorem reports_property {t : Ty} {name : String} {isCallee : Bool} :
    (property catalog t name isCallee).Reports := by
  unfold property
  repeat' split
  all_goals first | exact .of_issue_eq_none rfl | exact .reported rfl

theorem concernsLoop_constructor? {subject : Ty} {labels : List String} {i : Issue}
    (h : constructor? catalog subject labels = .error i) : i.concernsLoop = false := by
  unfold constructor? at h
  repeat' split at h
  all_goals cases h <;> rfl

theorem reports_nameCall {callee : Option Ty} {labels : List String} :
    (nameCall catalog callee labels).Reports := by
  unfold nameCall construction
  repeat' split
  all_goals first
    | exact .of_issue_eq_none rfl
    | exact .reported (concernsLoop_constructor? ‹_›)

theorem reports_memberCall {receiver : Option Ty} {name : String} {callee : ExprNote}
    {labels : List String} : (memberCall catalog receiver name callee labels).Reports := by
  unfold memberCall initCall methodCall
  repeat' split
  all_goals first
    | exact .of_issue_eq_none rfl
    | exact .reported rfl
    | exact .reported (concernsLoop_constructor? ‹_›)

/-- What is wrong with a loop is the type that it iterates over, if this is not the type of a failed
expression. -/
theorem issue_loopElement {type : Option Ty} {i : Issue}
    (h : (loopElement catalog type).2 = some i) :
    ∃ t, type = some t ∧ t ≠ .errorType ∧ i = .notIterable t := by
  unfold loopElement at h
  split at h
  · cases h
  · rename_i t
    split at h
    · cases h
    · split_ifs at h with _ herror
      cases h
      exact ⟨t, rfl, fun ht => herror (Ty.isError_iff.2 ht), rfl⟩

end Rule

namespace Lexicon

variable {L : Lexicon} {env : Env}

theorem reports_judgeCall {callee : Term Verdict} {arguments : List (Argument (Term Verdict))} :
    (L.judgeCall callee arguments).Reports := by
  unfold judgeCall
  repeat' split
  · exact .of_issue_eq_none rfl
  · exact Rule.reports_memberCall
  · exact Rule.reports_nameCall
  · exact .unlessFailed (.of_issue_eq_none rfl)

theorem reports_judgeMember {isCallee : Bool} {receiver : Operand} {name : String} :
    (L.judgeMember isCallee receiver name).Reports := by
  unfold judgeMember
  repeat' split
  all_goals first | exact .of_issue_eq_none rfl | exact Rule.reports_property

/-- A verdict that reports something is that the expression failed. -/
theorem reports_verdict {mark : Mark} {k : Expr (Term Verdict)} :
    (L.verdict env mark k).Reports := by
  cases k with
  | identifier name =>
    rw [verdict, judgeName]
    split
    · exact .of_issue_eq_none rfl
    · exact .reported rfl
  | constant | assignment | parens => exact .of_issue_eq_none rfl
  | prefixed | unary | binary | cast | arrayLiteral | dictionaryLiteral =>
    exact .unlessFailed (.of_issue_eq_none rfl)
  | ternary => exact .unlessFailed Rule.reports_ternary
  | member => exact .close reports_judgeMember
  | subscript => exact .close (.unlessFailed Rule.reports_subscript)
  | call => exact .close reports_judgeCall
  | chain => exact .close (.unlessFailed (.of_issue_eq_none rfl))

theorem diagnostics_judge (L : Lexicon) (env : Env) (T : Term Mark) :
    (L.judge env T).diagnostics = T.shape.slots.flatMap (fun x => (L.judge env x).diagnostics) ++
      ((L.judge env T).label.issue.map (⟨·, .expr T.id⟩)).toList := by
  rw [Term.diagnostics_eq, judge_id, judge_shape, Expr.slots_map, List.flatMap_map]

/-- What is reported about a term is reported about one of its operands, or is why the term
failed. -/
theorem mem_diagnostics {T : Term Mark} {d : Diagnostic} :
    d ∈ (L.judge env T).diagnostics ↔
      (∃ x ∈ T.shape.slots, d ∈ (L.judge env x).diagnostics) ∨
        (L.judge env T).label.issue = some d.issue ∧ d.node = .expr T.id := by
  rw [diagnostics_judge, List.mem_append, List.mem_flatMap, Option.mem_toList,
    Option.map_eq_some_iff]
  refine or_congr_right ⟨?_, fun ⟨hi, hnode⟩ => ⟨d.issue, hi, by rw [← hnode]⟩⟩
  rintro ⟨i, hi, rfl⟩
  exact ⟨hi, rfl⟩

theorem concernsLoop_of_mem {T : Term Mark} {d : Diagnostic}
    (h : d ∈ (L.judge env T).diagnostics) : d.issue.concernsLoop = false := by
  induction T using Term.induct with
  | node T ih =>
    rcases mem_diagnostics.1 h with ⟨x, hx, h⟩ | ⟨h, -⟩
    · exact ih x hx h
    · rw [judge_label] at h
      exact (reports_verdict _ h).2

end Lexicon
end ExprTyping
