import ExprTyping.Proofs.Lexical.Coverage
import ExprTyping.Proofs.Lexical.ErrorFree
import ExprTyping.Proofs.Lexical.Reports

/-!
# Expressions that do not fail

Nothing fails without a cause: in error-free surroundings, an expression with resolved and
error-free operands fails only with a report, or as a member access that is called
(`Lexicon.verdict_errorFree`). In the second case the call gives the access the type of a method or
reports (`Lexicon.judgeCall_errorFree`).

So a term about which nothing is reported has not failed, nor has anything below it
(`Lexicon.judge_errorFree`).
-/

namespace ExprTyping

/-! ## Environments -/

/-- All declared types are error-free. -/
def Scope.ErrorFree (scope : Scope) : Prop := ∀ d ∈ scope.definitions, d.type.errorFree

/-- All declared types are error-free. -/
def Env.ErrorFree (env : Env) : Prop := ∀ scope ∈ env, scope.ErrorFree

theorem Scope.ErrorFree.empty : Scope.ErrorFree {} := All.empty

namespace Env.ErrorFree

variable {env : Env} {name : String} {d : Definition}

theorem find? (h : env.ErrorFree) (hd : env.find? name = some d) : d.type.errorFree :=
  All.find? h hd

theorem declare {definitions : List Definition} (h : env.ErrorFree)
    (hd : ∀ d ∈ definitions, d.type.errorFree) : (env.declare definitions).ErrorFree :=
  All.declare h hd

end Env.ErrorFree

/-- Catalog and intrinsics are error-free. -/
structure Lexicon.ErrorFree (L : Lexicon) : Prop where
  catalog : L.catalog.ErrorFree
  intrinsics : L.intrinsics.ErrorFree

/-! ## Verdicts -/

@[simp] theorem Term.operand_type (x : Term Verdict) : x.operand.type = x.label.type := rfl

theorem unlessFailed_eq {operands : List Operand} (h : ∀ x ∈ operands, x.type.all Ty.errorFree)
    (v : Verdict) : unlessFailed operands v = v := by
  rw [unlessFailed, if_neg]
  intro hany
  obtain ⟨x, hx, hfailed⟩ := List.any_eq_true.1 hany
  have htype := h x hx
  rw [beq_iff_eq.1 hfailed] at htype
  cases htype

namespace Lexicon

variable {L : Lexicon} {env : Env}

theorem judgeName_errorFree (hL : L.ErrorFree) (henv : env.ErrorFree) {name : String}
    (hissue : (L.judgeName env name).issue = none) : (L.judgeName env name).note.errorFree := by
  have hmeaning : ∀ b, L.meaning? env name = some b → b.type.errorFree := by
    intro b hb
    unfold meaning? at hb
    split at hb
    · cases hb
      exact hL.intrinsics.definition _ _ ‹_›
    split at hb
    · cases hb
      exact henv.find? ‹_›
    split at hb
    · cases hb
      exact hL.intrinsics.implicitMember _ _ ‹_›
    · obtain ⟨k, -, rfl⟩ := Option.map_eq_some_iff.1 hb
      rfl
  unfold judgeName at hissue ⊢
  split at hissue
  · exact hmeaning _ ‹_›
  · cases hissue

theorem judgeMember_errorFree (hL : L.ErrorFree) {receiver : Operand} {name : String}
    {isCallee : Bool} (hreceiver : receiver.type.any Ty.errorFree)
    (hissue : (L.judgeMember isCallee receiver name).issue = none) :
    (L.judgeMember isCallee receiver name).note.errorFree ∨
      isCallee = true ∧ (L.judgeMember isCallee receiver name).note.member = none := by
  obtain ⟨t, ht, hfree⟩ := (Option.any_eq_true ..).1 hreceiver
  unfold judgeMember at hissue ⊢
  rw [ht] at hissue ⊢
  split_ifs at hissue ⊢ with hfailed
  · rw [beq_iff_eq.1 hfailed] at hreceiver
    cases hreceiver
  · exact .inl hfree
  · exact Rule.property_errorFree hL.catalog hissue

/-- An expression with resolved and error-free operands does not fail without a report, unless it
is a member access that is called. -/
theorem verdict_errorFree (hL : L.ErrorFree) (henv : env.ErrorFree) {mark : Mark}
    {k : Expr (Term Verdict)} (hcall : k.callee? = none)
    (hx : ∀ x ∈ k.slots, x.label.type.any Ty.errorFree)
    (hcast : ∀ x target, k = .cast x target → target.errorFree)
    (hissue : (L.verdict env mark k).issue = none) :
    (L.verdict env mark k).note.errorFree ∨
      k.isMember ∧ mark.isCallee ∧ (L.verdict env mark k).note.member = none := by
  have hall : ∀ x ∈ k.slots, x.label.type.all Ty.errorFree := by
    intro x hmem
    obtain ⟨t, ht, hfree⟩ := (Option.any_eq_true ..).1 (hx x hmem)
    rwa [ht]
  cases k with
  | call => cases hcall
  | identifier name => exact .inl (judgeName_errorFree hL henv hissue)
  | constant value => exact .inl (Ty.hereditary_errorFree.constant value)
  | assignment => exact .inl rfl
  | parens x => exact .inl (hall x (List.mem_singleton.2 rfl))
  | prefixed op x | unary op x =>
    left
    rw [verdict, unlessFailed_eq (by simpa [Expr.slots] using hall)]
    exact Ty.hereditary_errorFree.unary (hall x (List.mem_singleton.2 rfl)) op
  | binary l op r =>
    left
    rw [verdict, unlessFailed_eq (by simpa [Expr.slots] using hall)]
    exact Ty.hereditary_errorFree.binary (hall l (by simp [Expr.slots]))
      (hall r (by simp [Expr.slots])) op
  | cast x target =>
    left
    rw [verdict, unlessFailed_eq (by simpa [Expr.slots] using hall)]
    exact Ty.hereditary_errorFree.cast (hcast x target rfl) _
  | ternary c t f =>
    left
    rw [verdict, unlessFailed_eq (by simpa [Expr.slots] using hall)] at hissue ⊢
    exact Rule.ternary_errorFree (hx t (by simp [Expr.slots])) (hx f (by simp [Expr.slots])) hissue
  | arrayLiteral items =>
    left
    rw [verdict, unlessFailed_eq (by simpa [Expr.slots] using hall)]
    exact Ty.hereditary_errorFree.arrayLiteral (by simpa [Expr.slots] using hall)
  | dictionaryLiteral pairs =>
    left
    rw [verdict, unlessFailed_eq]
    · refine Ty.hereditary_errorFree.dictionaryLiteral fun entry hentry => ?_
      obtain ⟨kv, hkv, rfl⟩ := List.mem_map.1 hentry
      exact ⟨hall kv.1 (List.mem_flatMap.2 ⟨kv, hkv, by simp⟩),
        hall kv.2 (List.mem_flatMap.2 ⟨kv, hkv, by simp⟩)⟩
    · intro o ho
      obtain ⟨kv, hkv, ho⟩ := List.mem_flatMap.1 ho
      have hk := hall kv.1 (List.mem_flatMap.2 ⟨kv, hkv, by simp⟩)
      have hv := hall kv.2 (List.mem_flatMap.2 ⟨kv, hkv, by simp⟩)
      rcases (by simpa using ho : o = kv.1.operand ∨ o = kv.2.operand) with rfl | rfl
      · exact hk
      · exact hv
  | member receiver name =>
    rw [verdict, Mark.issue_close] at hissue
    have hreceiver := hx receiver (List.mem_singleton.2 rfl)
    rcases judgeMember_errorFree hL hreceiver hissue with h | h
    · exact .inl (Ty.hereditary_errorFree.close h)
    · exact .inr ⟨rfl, h.1, (Mark.member_close ..).trans h.2⟩
  | subscript receiver index =>
    left
    rw [verdict, unlessFailed_eq (by simpa [Expr.slots] using hall)] at hissue ⊢
    rw [Mark.issue_close] at hissue
    exact Ty.hereditary_errorFree.close
      (Rule.subscript_errorFree (hall receiver (by simp [Expr.slots])) hissue)
  | chain receiver =>
    left
    rw [verdict, unlessFailed_eq (by simpa [Expr.slots] using hall)]
    refine Ty.hereditary_errorFree.close ?_
    obtain ⟨t, ht, hfree⟩ := (Option.any_eq_true ..).1 (hx receiver (List.mem_singleton.2 rfl))
    rw [ht]
    exact Ty.hereditary_errorFree.unwrapped hfree

/-- A call of a member that is not reported leaves no error, neither on the call nor on the member,
whether the member failed or not. -/
theorem judgeCall_errorFree (hL : L.ErrorFree) (callee : Term Verdict)
    {arguments : List (Argument (Term Verdict))}
    (harguments : ∀ x ∈ arguments, x.value.label.type.any Ty.errorFree)
    (hcallee : callee.label.note.errorFree ∨
      callee.shape.isMember ∧ callee.label.note.member = none)
    (hmember : ∀ receiver name, callee.shape = .member receiver name →
      receiver.label.type.any Ty.errorFree ∧
        ∀ p, callee.label.note.member = some (.property p) → p.type.errorFree)
    (hissue : (L.judgeCall callee arguments).issue = none) :
    (L.judgeCall callee arguments).note.errorFree ∧
      ((L.judgeCall callee arguments).callee.getD callee.label.note).errorFree := by
  have hnone : ¬ arguments.any (·.value.operand.isFailed) = true := by
    intro hany
    obtain ⟨x, hx, hfailed⟩ := List.any_eq_true.1 hany
    have htype := harguments x hx
    rw [← Term.operand_type, beq_iff_eq.1 hfailed] at htype
    cases htype
  rw [judgeCall, if_neg hnone] at hissue ⊢
  cases hk : callee.shape with
  | member receiver name =>
    rw [hk] at hissue
    obtain ⟨hreceiver, hproperty⟩ := hmember receiver name hk
    refine Rule.memberCall_errorFree hL.catalog hreceiver (hcallee.imp_right fun h => ?_)
      hproperty hissue
    rw [h.2]
    rfl
  | identifier name =>
    rw [hk] at hissue hcallee
    have hfree := hcallee.resolve_right fun h => by cases h.1
    refine ⟨Rule.nameCall_errorFree hfree hissue, ?_⟩
    dsimp only
    rwa [Rule.callee_nameCall]
  | _ =>
    rw [hk] at hcallee
    have hfree := hcallee.resolve_right fun h => by cases h.1
    have hoperand : ∀ x ∈ [callee.operand], x.type.all Ty.errorFree := by
      simpa [ExprNote.errorFree, Verdict.type] using hfree
    dsimp only
    rw [unlessFailed_eq hoperand]
    exact ⟨rfl, hfree⟩

/-- The property that a member access means has an error-free type. -/
theorem property_of_member_errorFree (hL : L.ErrorFree) {mark : Mark} {receiver : Term Verdict}
    {name : String} {p : Property}
    (hp : (L.verdict env mark (.member receiver name)).note.member = some (.property p)) :
    p.type.errorFree := by
  rw [verdict, Mark.member_close] at hp
  unfold judgeMember at hp
  split_ifs at hp
  · cases hp
  · cases hp
  · split at hp
    · cases hp
    · exact Rule.type_of_member_property hL.catalog hp

end Lexicon

/-! ## What is written in a program -/

/-- The types written below a node, in declarations and casts, are error-free. -/
structure Arena.ErrorFree (a : Arena) (root : NodeId) : Prop where
  declared : ∀ s node declarations, a.Below root (.stmt s) → a.stmt s = .ok node →
    node.kind = .variables declarations → ∀ d ∈ declarations, d.type.errorFree
  cast : ∀ e node x target, a.Below root (.expr e) → a.expr e = .ok node →
    node.kind = .cast x target → target.errorFree

theorem Arena.ErrorFree.below {a : Arena} {root n : NodeId} (h : a.ErrorFree root)
    (hn : a.Below root n) : a.ErrorFree n where
  declared s node declarations hs := h.declared s node declarations (hn.trans hs)
  cast e node x target he := h.cast e node x target (hn.trans he)

/-! ## Terms -/

/-- The notes left below a term. -/
def Term.inner (J : Term Verdict) : List Finding :=
  J.shape.slots.flatMap fun x => x.findings (J.noteOn x)

theorem Term.findings_eq_cons (J : Term Verdict) (note : ExprNote) :
    J.findings note = ⟨J.id, note⟩ :: J.inner := J.findings_eq note

namespace Lexicon

variable {L : Lexicon} {env : Env} {a : Arena} {T : Term Mark}

theorem mem_inner {f : Finding} : f ∈ (L.judge env T).inner ↔ ∃ x ∈ T.shape.slots,
    f = ⟨x.id, (L.judge env T).noteOn (L.judge env x)⟩ ∨ f ∈ (L.judge env x).inner := by
  rw [Term.inner, judge_shape, Expr.slots_map, List.flatMap_map, List.mem_flatMap]
  simp only [Term.findings_eq_cons, List.mem_cons, judge_id]

/-- Nothing on or below the term has failed, except that the term itself may have if it is a member
access that is called. -/
structure Succeeds (L : Lexicon) (env : Env) (T : Term Mark) : Prop where
  inner : ∀ f ∈ (L.judge env T).inner, f.note.errorFree
  own : (L.judge env T).label.note.errorFree ∨
    T.shape.isMember ∧ T.label.isCallee ∧ (L.judge env T).label.note.member = none

/-- An operand that is not called keeps its own type. -/
theorem type_of_uncalled (wf : a.WellFormed) (hT : a.HoldsTerm T) {x : Term Mark}
    (hx : x ∈ T.shape.slots) (hcallee : x.label.isCallee = false)
    (hfree : ((L.judge env T).noteOn (L.judge env x)).errorFree)
    (hsome : ((L.judge env T).noteOn (L.judge env x)).type.isSome) :
    (L.judge env x).label.type.any Ty.errorFree := by
  rw [noteOn_of_not_callee wf hT hx hcallee] at hfree hsome
  obtain ⟨t, ht⟩ := Option.isSome_iff_exists.1 hsome
  rw [ExprNote.errorFree, ht] at hfree
  have ht : (L.judge env x).label.type = some t := ht
  rwa [ht]

/-- Operands that are not called are resolved and error-free. -/
theorem uncalled_errorFree (wf : a.WellFormed) (hT : a.HoldsTerm T) {x : Term Mark}
    (hx : x ∈ T.shape.slots) (hcallee : x.label.isCallee = false) (hsucceeds : L.Succeeds env x)
    (hresolved : ∀ f ∈ (L.judge env T).inner, f.note.type.isSome) :
    ((L.judge env T).noteOn (L.judge env x)).errorFree ∧
      (L.judge env x).label.type.any Ty.errorFree := by
  have hfree : ((L.judge env T).noteOn (L.judge env x)).errorFree := by
    rw [noteOn_of_not_callee wf hT hx hcallee]
    exact hsucceeds.own.resolve_right fun h => by rw [hcallee] at h; cases h.2.1
  exact ⟨hfree, type_of_uncalled wf hT hx hcallee hfree
    (hresolved _ (mem_inner.2 ⟨x, hx, .inl rfl⟩))⟩

theorem succeeds_of_uncalled (hL : L.ErrorFree) (henv : env.ErrorFree) (wf : a.WellFormed)
    (hT : a.HoldsTerm T) (hwritten : a.ErrorFree (.expr T.id)) (hcall : T.shape.callee? = none)
    (hissue : (L.judge env T).label.issue = none)
    (hresolved : ∀ f ∈ (L.judge env T).inner, f.note.type.isSome)
    (hoperands : ∀ x ∈ T.shape.slots, L.Succeeds env x) : L.Succeeds env T := by
  have operand : ∀ x ∈ T.shape.slots, ((L.judge env T).noteOn (L.judge env x)).errorFree ∧
      (L.judge env x).label.type.any Ty.errorFree := by
    intro x hx
    refine uncalled_errorFree wf hT hx ?_ (hoperands x hx) hresolved
    rw [hT.isCallee_operand wf hx, hcall]
    rfl
  constructor
  · intro f hf
    obtain ⟨x, hx, rfl | hf⟩ := mem_inner.1 hf
    · exact (operand x hx).1
    · exact (hoperands x hx).inner f hf
  · rw [judge_label] at hissue ⊢
    have hverdict := verdict_errorFree hL henv (k := T.shape.map (L.judge env))
      (by rw [Expr.callee?_map, hcall]; rfl) ?_ ?_ hissue
    · rwa [Expr.isMember_map] at hverdict
    · intro x hx
      rw [Expr.slots_map] at hx
      obtain ⟨y, hy, rfl⟩ := List.mem_map.1 hx
      exact (operand y hy).2
    · intro x target hk
      obtain ⟨parent, hnode⟩ := hT.exists_node
      obtain ⟨y, hshape, -⟩ := Expr.map_eq_cast.1 hk
      rw [hshape] at hnode
      exact hwritten.cast T.id _ _ _ (.refl _) hnode rfl

theorem succeeds_of_call (hL : L.ErrorFree) (wf : a.WellFormed) (hT : a.HoldsTerm T)
    {callee : Term Mark} {arguments : List (Argument (Term Mark))}
    (hk : T.shape = .call callee arguments) (hissue : (L.judge env T).label.issue = none)
    (hresolved : ∀ f ∈ (L.judge env T).inner, f.note.type.isSome)
    (hoperands : ∀ x ∈ T.shape.slots, L.Succeeds env x) : L.Succeeds env T := by
  have hslots : ∀ x, x ∈ T.shape.slots ↔ x = callee ∨ ∃ y ∈ arguments, y.value = x := by
    intro x
    rw [hk, Expr.slots, List.mem_cons, List.mem_map]
  have hmem : callee ∈ T.shape.slots := (hslots callee).2 (.inl rfl)
  have argument : ∀ y ∈ arguments, ((L.judge env T).noteOn (L.judge env y.value)).errorFree ∧
      (L.judge env y.value).label.type.any Ty.errorFree := by
    intro y hy
    have hy' := (hslots y.value).2 (.inr ⟨y, hy, rfl⟩)
    exact uncalled_errorFree wf hT hy' (not_callee_of_argument wf hT hk hy) (hoperands _ hy')
      hresolved
  have hlabel : (L.judge env T).label = T.label.close (L.judgeCall (L.judge env callee)
      (arguments.map fun y => ⟨y.label, L.judge env y.value⟩)) := by
    rw [judge_label, hk]
    rfl
  rw [hlabel, Mark.issue_close] at hissue
  have hcall := judgeCall_errorFree hL (L.judge env callee) ?_ ?_ ?_ hissue
  · constructor
    · intro f hf
      obtain ⟨x, hx, rfl | hf⟩ := mem_inner.1 hf
      · rcases (hslots x).1 hx with rfl | ⟨y, hy, rfl⟩
        · rw [noteOn_callee hk, hlabel, Mark.callee_close]
          exact hcall.2
        · exact (argument y hy).1
      · exact (hoperands x hx).inner f hf
    · rw [hlabel]
      exact .inl (Ty.hereditary_errorFree.close hcall.1)
  · intro y hy
    obtain ⟨z, hz, rfl⟩ := List.mem_map.1 hy
    exact (argument z hz).2
  · refine (hoperands callee hmem).own.imp_right fun h => ⟨?_, h.2.2⟩
    rw [judge_shape, Expr.isMember_map]
    exact h.1
  · intro receiver name hshape
    rw [judge_shape] at hshape
    cases hcallee : callee.shape with
    | member r other =>
      rw [hcallee] at hshape
      cases hshape
      have hr : r ∈ callee.shape.slots := by rw [hcallee]; exact List.mem_singleton.2 rfl
      have hinner : ⟨r.id, (L.judge env callee).noteOn (L.judge env r)⟩ ∈
          (L.judge env callee).inner := mem_inner.2 ⟨r, hr, .inl rfl⟩
      constructor
      · refine type_of_uncalled wf (hT.operand hmem) hr ?_ ((hoperands callee hmem).inner _ hinner)
          (hresolved _ (mem_inner.2 ⟨callee, hmem, .inr hinner⟩))
        rw [(hT.operand hmem).isCallee_operand wf hr, hcallee]
        rfl
      · intro p hp
        rw [judge_label, hcallee] at hp
        exact property_of_member_errorFree hL hp
    | _ => rw [hcallee] at hshape; cases hshape

/-- Without a report, nothing fails on or below an expression whose operands are resolved, except
for a member access that is called: the call is left to judge it. -/
theorem judge_errorFree (hL : L.ErrorFree) (henv : env.ErrorFree) (wf : a.WellFormed)
    (hT : a.HoldsTerm T) (hwritten : a.ErrorFree (.expr T.id))
    (hsilent : (L.judge env T).diagnostics = [])
    (hresolved : ∀ f ∈ (L.judge env T).inner, f.note.type.isSome) : L.Succeeds env T := by
  induction T using Term.induct with
  | node T ih =>
    have unreported : ∀ d, d ∉ (L.judge env T).diagnostics :=
      List.eq_nil_iff_forall_not_mem.1 hsilent
    have hissue : (L.judge env T).label.issue = none := by
      cases hi : (L.judge env T).label.issue with
      | none => rfl
      | some i => exact absurd (mem_diagnostics.2 (.inr ⟨hi, rfl⟩)) (unreported ⟨i, .expr T.id⟩)
    have hoperands : ∀ x ∈ T.shape.slots, L.Succeeds env x := by
      intro x hx
      exact ih x hx (hT.operand hx) (hwritten.below (.of_child (hT.child hx) (.refl _)))
        (List.eq_nil_iff_forall_not_mem.2 fun d hd =>
          unreported d (mem_diagnostics.2 (.inl ⟨x, hx, hd⟩)))
        fun f hf => hresolved f (mem_inner.2 ⟨x, hx, .inr hf⟩)
    cases hk : T.shape with
    | call callee arguments => exact succeeds_of_call hL wf hT hk hissue hresolved hoperands
    | _ => exact succeeds_of_uncalled hL henv wf hT hwritten (by rw [hk]; rfl) hissue hresolved
            hoperands

end Lexicon
end ExprTyping
