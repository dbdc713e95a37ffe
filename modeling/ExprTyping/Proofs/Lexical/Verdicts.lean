import ExprTyping.Proofs.Lexical.Judge

/-!
# What verdicts can be

Two facts hold of every verdict, whatever the rule that gives it.

* A name is bound only together with a type (`Lexicon.binding_verdict`).
* A failed operand makes the expression fail, unless it is an assignment (`Lexicon.verdict_failed`).

Both concern an expression's own note. A call may put another one on its callee, whose type is then
that of a function and whose receiver has not failed (`Lexicon.judgeCall_settles`). The notes that
can be left on a term in one of the two ways are `Term.Leaves`.
-/

namespace ExprTyping

/-! ## Rules -/

namespace Rule

variable {catalog : Catalog} {receiver : Option Ty} {name : String} {callee note : ExprNote}
  {labels : List String}

/-- A call settles its callee only if the receiver has not failed. The callee then has the type of a
function. -/
theorem memberCall_settles
    (h : (memberCall catalog receiver name callee labels).callee = some note) :
    receiver ≠ some .errorType ∧ ∃ parameters result,
      note.type = some (.function parameters result) := by
  have init : ∀ subject, (initCall catalog subject callee labels).callee = some note →
      ∃ parameters result, note.type = some (.function parameters result) := by
    intro subject h
    unfold initCall at h
    split at h
    · cases h
      exact ⟨_, _, rfl⟩
    · cases h
  have method : ∀ t, (methodCall catalog t name callee labels).callee = some note →
      ∃ parameters result, note.type = some (.function parameters result) := by
    intro t h
    unfold methodCall at h
    repeat' split at h
    all_goals cases h
    exact ⟨_, _, rfl⟩
  unfold memberCall at h
  split at h
  · cases h
  · cases h
  · refine ⟨by simp, ?_⟩
    split at h
    · exact init _ h
    · exact method _ h
  · exact ⟨by simpa using ‹_›, method _ h⟩

/-- A property that a member access means gives the access its type. -/
theorem type_of_property {t : Ty} {isCallee : Bool} {p : Property}
    (h : (property catalog t name isCallee).note.member = some (.property p)) :
    (property catalog t name isCallee).type = some p.type := by
  unfold property at h ⊢
  repeat' split at h
  all_goals cases h
  simp_all [Verdict.type]

theorem exists_property_of_returned {member : Option Member} {result : Ty}
    (h : returnedByProperty? member = some result) :
    ∃ p, member = some (.property p) ∧ ∃ parameters, p.type = .function parameters result := by
  unfold returnedByProperty? at h
  split at h
  · cases h
    exact ⟨_, rfl, _, rfl⟩
  · cases h

/-- A call of a failed member fails, unless the call settles what the member means. -/
theorem methodCall_failed {t : Ty} (hmember : returnedByProperty? callee.member = none)
    (hsettled : (methodCall catalog t name callee labels).callee = none) :
    (methodCall catalog t name callee labels).type = some .errorType := by
  unfold methodCall at hsettled ⊢
  rw [hmember] at hsettled ⊢
  dsimp only at hsettled ⊢
  split
  · rfl
  · split
    · simp_all
    · rfl

theorem memberCall_failed (hmember : returnedByProperty? callee.member = none)
    (hsettled : (memberCall catalog receiver name callee labels).callee = none) :
    (memberCall catalog receiver name callee labels).type = some .errorType := by
  unfold memberCall at hsettled ⊢
  split
  · rfl
  · rfl
  · dsimp only at hsettled
    split
    · rw [if_pos ‹_›] at hsettled
      unfold initCall at hsettled ⊢
      split
      · simp_all
      · rfl
    · rw [if_neg ‹_›] at hsettled
      exact methodCall_failed hmember hsettled
  · exact methodCall_failed hmember (by simpa using hsettled)

end Rule

/-! ## Failed operands -/

theorem unlessFailed_failed {operands : List Operand} {x : Operand} (hx : x ∈ operands)
    (hfailed : x.type = some .errorType) (v : Verdict) : unlessFailed operands v = .failed := by
  have hany : operands.any Operand.isFailed = true :=
    List.any_eq_true.2 ⟨x, hx, by simp [Operand.isFailed, hfailed]⟩
  rw [unlessFailed, if_pos hany]

theorem Mark.close_failed {mark : Mark} {v : Verdict} (h : v.type = some .errorType) :
    (mark.close v).type = some .errorType := by
  rw [close, h]
  exact h

theorem Mark.close_function {mark : Mark} {v : Verdict} {parameters : List Ty} {result : Ty}
    (h : v.type = some (.function parameters result)) :
    (mark.close v).type ≠ some .errorType := by
  rw [close, h]
  dsimp only
  split_ifs
  · simp [h]
  · simp [Verdict.withType, Verdict.type]
  · simp [h]

@[simp] theorem Mark.member_close (mark : Mark) (v : Verdict) :
    (mark.close v).note.member = v.note.member := by
  unfold close
  repeat' split
  all_goals rfl

namespace Lexicon

variable {L : Lexicon} {env : Env}

theorem judgeCall_argument_failed {callee : Term Verdict}
    {arguments : List (Argument (Term Verdict))} {x : Argument (Term Verdict)}
    (hx : x ∈ arguments) (hfailed : x.value.label.type = some .errorType) :
    L.judgeCall callee arguments = .failed := by
  have hany : arguments.any (·.value.operand.isFailed) = true :=
    List.any_eq_true.2 ⟨x, hx, by simp [Operand.isFailed, Term.operand, hfailed]⟩
  rw [judgeCall, if_pos hany]

theorem judgeCall_callee_failed {callee : Term Verdict}
    {arguments : List (Argument (Term Verdict))} (hfailed : callee.label.type = some .errorType)
    (hproperty : ∀ receiver name, callee.shape = .member receiver name →
      Rule.returnedByProperty? callee.label.note.member = none)
    (hsettled : (L.judgeCall callee arguments).callee = none) :
    (L.judgeCall callee arguments).type = some .errorType := by
  unfold judgeCall at hsettled ⊢
  split
  · rfl
  · rw [if_neg ‹_›] at hsettled
    split
    · rename_i receiver name hk
      rw [hk] at hsettled
      exact Rule.memberCall_failed (hproperty receiver name hk) hsettled
    · rw [hfailed]
      rfl
    · rw [unlessFailed_failed (List.mem_singleton.2 rfl) hfailed]
      rfl

/-- The property that a failed member access means holds no function. -/
theorem returnedByProperty?_of_failed {mark : Mark} {receiver : Operand} {name : String}
    (hfailed : (mark.close (L.judgeMember mark.isCallee receiver name)).type = some .errorType) :
    Rule.returnedByProperty?
      (mark.close (L.judgeMember mark.isCallee receiver name)).note.member = none := by
  rw [Mark.member_close]
  unfold judgeMember at hfailed ⊢
  split_ifs at hfailed ⊢
  · rfl
  · rfl
  · cases ht : receiver.type with
    | none => rfl
    | some t =>
      rw [ht] at hfailed
      cases hm : Rule.returnedByProperty?
          (Rule.property L.catalog t name mark.isCallee).note.member with
      | none => rfl
      | some result =>
        obtain ⟨p, hp, parameters, hfunction⟩ := Rule.exists_property_of_returned hm
        have htype := Rule.type_of_property hp
        rw [hfunction] at htype
        exact absurd hfailed (Mark.close_function htype)

/-- A failed operand makes the expression fail for no other reason, unless it is an assignment or a
call. -/
theorem verdict_failed {mark : Mark} {k : Expr (Term Verdict)} {x : Term Verdict}
    (hx : x ∈ k.slots) (hfailed : x.label.type = some .errorType) (hcall : k.callee? = none)
    (hassign : ∀ l op r, k ≠ .assignment l op r) : L.verdict env mark k = .failed := by
  cases k with
  | identifier | constant => simp [Expr.slots] at hx
  | call => cases hcall
  | assignment l op r => exact absurd rfl (hassign l op r)
  | parens y =>
    obtain rfl := List.mem_singleton.1 hx
    rw [verdict, hfailed, Verdict.failed]
  | prefixed op y | unary op y | cast y =>
    obtain rfl := List.mem_singleton.1 hx
    exact unlessFailed_failed (List.mem_singleton.2 rfl) hfailed _
  | binary l op r =>
    refine unlessFailed_failed (x := x.operand) ?_ hfailed _
    rcases (by simpa [Expr.slots] using hx : x = l ∨ x = r) with rfl | rfl <;> simp
  | ternary c t f =>
    refine unlessFailed_failed (x := x.operand) ?_ hfailed _
    rcases (by simpa [Expr.slots] using hx : x = c ∨ x = t ∨ x = f) with rfl | rfl | rfl <;> simp
  | arrayLiteral items =>
    exact unlessFailed_failed (x := x.operand) (List.mem_map.2 ⟨x, hx, rfl⟩) hfailed _
  | dictionaryLiteral pairs =>
    refine unlessFailed_failed (x := x.operand) ?_ hfailed _
    obtain ⟨kv, hkv, hx⟩ := List.mem_flatMap.1 hx
    refine List.mem_flatMap.2 ⟨kv, hkv, ?_⟩
    rcases (by simpa using hx : x = kv.1 ∨ x = kv.2) with rfl | rfl <;> simp
  | member receiver name =>
    obtain rfl := List.mem_singleton.1 hx
    have hreceiver : x.operand.isFailed = true := by simp [Operand.isFailed, Term.operand, hfailed]
    rw [verdict, judgeMember, if_pos hreceiver]
    rfl
  | subscript y i =>
    rw [verdict, unlessFailed_failed (x := x.operand) ?_ hfailed]
    · rfl
    · rcases (by simpa [Expr.slots] using hx : x = y ∨ x = i) with rfl | rfl <;> simp
  | chain y =>
    obtain rfl := List.mem_singleton.1 hx
    rw [verdict, unlessFailed_failed (List.mem_singleton.2 rfl) hfailed]
    rfl

end Lexicon

/-! ## Bindings -/

namespace Rule

variable (catalog : Catalog)

theorem binding_ternary (t f : Option Ty) : (ternary t f).note.binding = none := by
  unfold ternary
  repeat' split
  all_goals rfl

theorem binding_subscript (receiver index : Option Ty) :
    (subscript catalog receiver index).note.binding = none := by
  unfold subscript integerSubscript
  repeat' split
  all_goals rfl

theorem binding_property (t : Ty) (name : String) (isCallee : Bool) :
    (property catalog t name isCallee).note.binding = none := by
  unfold property
  repeat' split
  all_goals rfl

theorem binding_nameCall (callee : Option Ty) (labels : List String) :
    (nameCall catalog callee labels).note.binding = none := by
  unfold nameCall construction
  repeat' split
  all_goals rfl

theorem binding_memberCall (receiver : Option Ty) (name : String) (callee : ExprNote)
    (labels : List String) :
    (memberCall catalog receiver name callee labels).note.binding = none := by
  unfold memberCall initCall methodCall
  repeat' split
  all_goals rfl

end Rule

theorem binding_unlessFailed {operands : List Operand} {v : Verdict}
    (h : v.note.binding = none) : (unlessFailed operands v).note.binding = none := by
  unfold unlessFailed
  split
  · rfl
  · exact h

@[simp] theorem Mark.binding_close (mark : Mark) (v : Verdict) :
    (mark.close v).note.binding = v.note.binding := by
  unfold close
  repeat' split
  all_goals rfl

namespace Lexicon

variable {L : Lexicon} {env : Env}

theorem binding_judgeCall (callee : Term Verdict) (arguments : List (Argument (Term Verdict))) :
    (L.judgeCall callee arguments).note.binding = none := by
  unfold judgeCall
  repeat' split
  · rfl
  · exact Rule.binding_memberCall ..
  · exact Rule.binding_nameCall ..
  · exact binding_unlessFailed rfl

/-- A name is bound only together with a type. -/
theorem binding_verdict {mark : Mark} {k : Expr (Term Verdict)}
    (h : (L.verdict env mark k).note.type = none) : (L.verdict env mark k).note.binding = none := by
  cases k with
  | identifier name =>
    rw [verdict] at h ⊢
    unfold judgeName at h ⊢
    split at h
    · cases h
    · cases h
  | constant | assignment | parens => rfl
  | prefixed | unary | binary | cast | arrayLiteral | dictionaryLiteral =>
    exact binding_unlessFailed rfl
  | ternary => exact binding_unlessFailed (Rule.binding_ternary ..)
  | member receiver name =>
    rw [verdict, Mark.binding_close]
    unfold judgeMember
    repeat' split
    all_goals first | rfl | exact Rule.binding_property ..
  | subscript =>
    rw [verdict, Mark.binding_close]
    exact binding_unlessFailed (Rule.binding_subscript ..)
  | call =>
    rw [verdict, Mark.binding_close]
    exact binding_judgeCall ..
  | chain =>
    rw [verdict, Mark.binding_close]
    exact binding_unlessFailed rfl

end Lexicon

/-! ## The notes that are left -/

theorem Rule.callee_nameCall (catalog : Catalog) (type : Option Ty) (labels : List String) :
    (nameCall catalog type labels).callee = none := by
  unfold nameCall construction
  repeat' split
  all_goals rfl

theorem callee_unlessFailed {operands : List Operand} {v : Verdict} (h : v.callee = none) :
    (unlessFailed operands v).callee = none := by
  unfold unlessFailed
  split
  · rfl
  · exact h

@[simp] theorem Mark.callee_close (mark : Mark) (v : Verdict) :
    (mark.close v).callee = v.callee := by
  unfold Mark.close
  repeat' split
  all_goals rfl

/-- A call settles its callee only if this is a member access whose receiver has not failed. The
callee then has the type of a function. -/
theorem Lexicon.judgeCall_settles {L : Lexicon} {callee : Term Verdict}
    {arguments : List (Argument (Term Verdict))} {note : ExprNote}
    (h : (L.judgeCall callee arguments).callee = some note) :
    ∃ receiver name parameters result, callee.shape = .member receiver name ∧
      receiver.label.type ≠ some .errorType ∧
      note.type = some (.function parameters result) := by
  unfold judgeCall at h
  split at h
  · cases h
  · split at h
    · rename_i receiver name hk
      obtain ⟨hreceiver, parameters, result, htype⟩ := Rule.memberCall_settles h
      exact ⟨receiver, name, parameters, result, hk, hreceiver, htype⟩
    · rw [Rule.callee_nameCall] at h
      cases h
    · rw [callee_unlessFailed rfl] at h
      cases h

/-- The notes that can be left on a typed term: its own, or the one that a call settles. -/
def Term.Leaves (J : Term Verdict) (note : ExprNote) : Prop :=
  note = J.label.note ∨ ∃ receiver name parameters result,
    J.shape = .member receiver name ∧ receiver.label.type ≠ some .errorType ∧
      note.type = some (.function parameters result)

/-- What is no member access keeps its own note. -/
theorem Lexicon.note_of_leaves {L : Lexicon} {env : Env} {T : Term Mark} {note : ExprNote}
    (h : (L.judge env T).Leaves note) (hmember : T.shape.isMember = false) :
    note = (L.judge env T).label.note := by
  refine h.resolve_right ?_
  rintro ⟨_, _, _, _, hshape, -⟩
  have hmember' := congrArg Expr.isMember hshape
  rw [judge_shape, Expr.isMember_map, hmember] at hmember'
  cases hmember'

/-- An identifier is bound only together with a type. -/
theorem Lexicon.binding_of_leaves {L : Lexicon} {env : Env} {T : Term Mark} {note : ExprNote}
    (h : (L.judge env T).Leaves note) (htype : note.type = none) : note.binding = none := by
  rcases h with rfl | ⟨_, _, _, _, -, -, hfunction⟩
  · rw [judge_label] at htype ⊢
    exact binding_verdict htype
  · rw [hfunction] at htype
    cases htype

end ExprTyping
