import ExprTyping.Proofs.Arena.Links
import ExprTyping.Proofs.Lexical.Enclosure
import ExprTyping.Proofs.Lexical.Simulation

/-!
# Operators on an optional link

Where one arena has the link `x?`, another one has `(y)` (`Arena.Unlinks`), and `y` has the type of
`x` with one level of optionality removed. Then the same operators get the same verdicts in both:

* The link and the parentheses are `Lexicon.Alike`: both have the type of `y`, and a call of either
  has no type. An operator on terms that are alike gives terms that are alike
  (`Arena.Unlinks.alike`), as long as it closes no chain: only the last operator does.
* The last operator on the link closes a chain, so that its type is that of the last operator on
  the parentheses, made optional (`Arena.Unlinks.type_outermost`). The latter closes a chain or
  not, depending on whether there are other links among the operators; to make a type optional
  twice is to make it optional once.

Both walks come to the statement with the same environment (`Arena.Unlinks.exists_leads`), since
neither the name nor the link stands in what declares names on the way. There a name that nothing
declares has the type that the provider gives it (`Lexicon.type_judgeName`).
-/

namespace ExprTyping

/-! ## Names that only the provider knows -/

/-- The names that a statement declares. -/
def Stmt.boundNames {ε σ : Type} : Stmt ε σ → List String
  | .variables declarations => declarations.map (·.name)
  | .forIn (.identifier name) _ _ => [name]
  | _ => []

/-- A statement below the node declares the name. -/
def Arena.Binds (a : Arena) (n : NodeId) (name : String) : Prop :=
  ∃ s node, a.Below n (.stmt s) ∧ a.stmt s = .ok node ∧ name ∈ node.kind.boundNames

theorem Arena.Binds.of_below {a : Arena} {n m : NodeId} {name : String} (h : a.Binds m name)
    (hm : a.Below n m) : a.Binds n name := by
  obtain ⟨s, node, hs, hnode⟩ := h
  exact ⟨s, node, hm.trans hs, hnode⟩

theorem Env.find?_eq_none {env : Env} {name : String} (h : env.All fun d => d.name ≠ name) :
    env.find? name = none := by
  rw [Env.find?, List.findSome?_eq_none_iff]
  intro scope hscope
  rw [Scope.find?, List.find?_eq_none]
  intro d hd
  simpa using h scope hscope d hd

/-- The type that the provider of the intrinsics gives a name. -/
def Intrinsics.type? (intrinsics : Intrinsics) (name : String) : Option Ty :=
  match intrinsics.definition? name with
  | some d => some d.type
  | .none => (intrinsics.implicitMember? name).map Binding.type

namespace Lexicon

variable {L : Lexicon} {a : Arena} {c d : Leg} {name : String}

theorem type_judgeName {env : Env} {t : Ty} (htype : L.intrinsics.type? name = some t)
    (hname : env.find? name = none) : (L.judgeName env name).type = some t := by
  rw [Intrinsics.type?] at htype
  rw [judgeName, meaning?, hname]
  cases hd : L.intrinsics.definition? name with
  | some d =>
    rw [hd] at htype
    exact htype
  | none =>
    rw [hd] at htype
    obtain ⟨b, hb, rfl⟩ := Option.map_eq_some_iff.1 htype
    rw [hb]
    rfl

/-- A statement declares no variable of a name that nothing below it declares. -/
theorem declared_all {P : Program} (hP : a.Holds P) (hname : ¬ a.Binds (.stmt P.id) name) :
    ∀ d ∈ P.shape.declared, d.name ≠ name := by
  rintro d hd rfl
  obtain ⟨node, declarations, hnode, hk, x, hx, rfl⟩ := hP.exists_declaration hd
  exact hname ⟨_, node, .refl _, hnode, by rw [hk]; exact List.mem_map.2 ⟨x, hx, rfl⟩⟩

theorem loopBound_all {P : Program} (hP : a.Holds P) (hname : ¬ a.Binds (.stmt P.id) name)
    {pattern : Pattern} {T : Term Mark} {body : Program} (hk : P.shape = .forIn pattern T body)
    (env : Env) : ∀ d ∈ L.loopBound env pattern T, d.name ≠ name := by
  rintro d hd rfl
  obtain ⟨parent, ownsScope, hnode⟩ := hP.exists_node
  cases pattern with
  | identifier bound =>
    obtain rfl := List.mem_singleton.1 hd
    exact hname ⟨_, _, .refl _, hnode, by rw [hk]; exact List.mem_singleton.2 rfl⟩
  | wildcard | tuple => cases hd

/-- A name that nothing in a program declares, and nothing around it, is not declared around what is
in the program. -/
theorem leg_all (hc : a.Holds c.program) (hname : ¬ a.Binds (.stmt c.program.id) name)
    (hinside : (c.inside a.opens).All fun d => d.name ≠ name) (hd : d ∈ L.legs a.opens c) :
    (d.inside a.opens).All fun d => d.name ≠ name := by
  have hdeclares : ∀ P ∈ c.program.shape.stmtSlots, ∀ d ∈ P.declares a.opens, d.name ≠ name := by
    intro P hP
    refine (hc.stmt hP).forall_declares a.opens fun Q hQ hbelow => declared_all hQ ?_
    exact fun hbinds => hname (hbinds.of_below (.of_child (hc.child_stmt hP) hbelow))
  obtain ⟨hinitial, henv⟩ := L.legs_all a.opens hinside hdeclares
    (fun _ _ _ hk => loopBound_all hc hname hk _) hd
  exact Leg.inside_all hinitial henv a.opens

theorem Leads.inside_all (h : L.Leads a.opens c d) (hc : a.Holds c.program)
    (hname : ¬ a.Binds (.stmt c.program.id) name)
    (hinside : (c.inside a.opens).All fun d => d.name ≠ name) :
    (d.inside a.opens).All fun d => d.name ≠ name := by
  induction h with
  | refl => exact hinside
  | tail hway hleg ih =>
    obtain ⟨hP, hbelow⟩ := Leads.holds hway hc
    exact leg_all hP (fun hbinds => hname (hbinds.of_below hbelow)) ih hleg

/-- What is found on an expression of a statement on the way. -/
theorem Leads.findings_expr (wf : a.WellFormed) {opens : Program → Bool} {s : StmtId} {e : ExprId}
    {node : StmtNode} (hnode : a.stmt s = .ok node) (he : e ∈ node.kind.exprSlots) {initial : Scope}
    {around env : Env} (h : L.Leads opens c ⟨a.program s, initial, around⟩)
    (henv : env = (Leg.inside opens ⟨a.program s, initial, around⟩).declare node.kind.declared) :
    (L.judge env (a.term e)).findings (L.judge env (a.term e)).label.note ⊆
      (L.take opens c).findings := by
  have hprogram := wf.program_eq hnode
  have hmem : a.term e ∈ (a.program s).shape.exprSlots := by
    rw [hprogram, Stmt.exprSlots_map]
    exact List.mem_map.2 ⟨e, he, rfl⟩
  have hdeclared : (a.program s).shape.declared = node.kind.declared := by
    rw [hprogram, Stmt.declared_map]
  intro f hf
  refine mem_findings_take.2 ⟨_, h, List.mem_flatMap.2 ⟨_, hmem, ?_⟩⟩
  rwa [henv, ← hdeclared] at hf

end Lexicon

/-! ## Closing a chain -/

/-- The type made optional; a failed expression stays failed, and an optional stays what it is. -/
def Ty.optionalised (t : Ty) : Ty := if t.isError || t.isOptional then t else .optional t

theorem Ty.optionalised_of_ne {t : Ty} (h : t ≠ .errorType) :
    t.optionalised = if t.isOptional then t else .optional t := by
  have herror : t.isError = false := by cases t <;> first | rfl | exact absurd rfl h
  rw [optionalised, herror, Bool.false_or]

theorem Ty.optionalised_optionalised (t : Ty) : t.optionalised.optionalised = t.optionalised := by
  rw [optionalised, optionalised]
  by_cases h : (t.isError || t.isOptional) = true
  · rw [if_pos h, if_pos h]
  · rw [if_neg h]
    rfl

theorem Mark.close_of_not_closes {mark : Mark} (h : mark.closesChain = false) (v : Verdict) :
    mark.close v = v := by
  rw [close, h]
  split <;> simp

theorem Mark.type_close (mark : Mark) (v : Verdict) :
    (mark.close v).type = if mark.closesChain then v.type.map Ty.optionalised else v.type := by
  cases hcloses : mark.closesChain with
  | false => rw [close_of_not_closes hcloses, if_neg Bool.false_ne_true]
  | true =>
    rw [close, hcloses]
    cases htype : v.type with
    | none => simp [htype]
    | some t =>
      by_cases h : (t.isError || t.isOptional) = true
      · simp [Ty.optionalised, h, htype]
      · simp [Ty.optionalised, h, Verdict.withType, Verdict.type]

namespace Lexicon

variable (L : Lexicon) (env : Env)

/-- An operator on a chain closes the chain after everything else. -/
theorem verdict_of_receiver? {mark : Mark} {k : Expr (Term Verdict)} {x : Term Verdict}
    (h : k.receiver? = some x) :
    L.verdict env mark k = mark.close (L.verdict env ⟨mark.isCallee, false⟩ k) := by
  cases k with
  | member | subscript | call | chain => simp only [verdict, Mark.close_of_not_closes]
  | _ => cases h

/-- For what is applied to them, the two terms are the same: they have one verdict, and so have the
calls of them. -/
structure Alike (J J' : Term Verdict) : Prop where
  label : J'.label = J.label
  call : ∀ arguments, L.judgeCall J' arguments = L.judgeCall J arguments

end Lexicon

/-- Only the statement's handle decides whether a program has a frame. -/
theorem Arena.inside_program (a b : Arena) (s : StmtId) (initial : Scope) (env : Env) :
    Leg.inside a.opens ⟨b.program s, initial, env⟩ =
      Leg.inside a.opens ⟨a.program s, initial, env⟩ := by
  simp only [Leg.inside, opens, program_id]

namespace Arena.Unlinks

variable {a b : Arena} {base link e p : ExprId} {x y : String} {node : ExprNode}
  {ops : List ExprId} {X : Ty} {env : Env} (h : a.Unlinks b base link x y) (wf : a.WellFormed)
  (L : Lexicon)
include h wf

/-! ## The link and the parentheses -/

section

variable (hx : (L.judgeName env x).type = some X)
include hx

theorem label_link : (L.judge env (a.term link)).label =
    (a.mark link).close (.typed (some X.unwrapped)) := by
  obtain ⟨_, hbase, -⟩ := h.expr_base
  obtain ⟨_, hlink, -⟩ := h.expr_link
  have hname : (L.judge env (a.term base)).label.type = some X := by
    rw [wf.judge_term L env hbase]
    exact hx
  rw [wf.judge_term L env hlink]
  show (a.mark link).close (unlessFailed [(L.judge env (a.term base)).operand] _) = _
  rw [hname]
  by_cases hX : X = .errorType
  · subst hX
    rw [unlessFailed_failed (List.mem_singleton.2 rfl) hname]
    rfl
  · have hfailed : (L.judge env (a.term base)).operand.isFailed = false := by
      simp [Operand.isFailed, Term.operand, hname, hX]
    simp [unlessFailed, hfailed]

variable (hy : (L.judgeName env y).type = some X.unwrapped)
include hy

omit hx in
theorem label_parens :
    (L.judge env (b.term link)).label = .typed (some X.unwrapped) := by
  obtain ⟨_, -, hbase⟩ := h.expr_base
  obtain ⟨_, -, hparens⟩ := h.expr_link
  rw [(h.wellFormed wf).judge_term L env hparens]
  show Verdict.typed (L.judge env (b.term base)).label.type = _
  rw [(h.wellFormed wf).judge_term L env hbase]
  exact congrArg Verdict.typed hy

theorem alike_link (hopen : (a.mark link).closesChain = false) :
    L.Alike (L.judge env (a.term link)) (L.judge env (b.term link)) := by
  obtain ⟨_, hlink, hparens⟩ := h.expr_link
  have hlabel : (L.judge env (b.term link)).label = (L.judge env (a.term link)).label := by
    rw [h.label_parens wf L hy, h.label_link wf L hx, Mark.close_of_not_closes hopen]
  have hold : (L.judge env (a.term link)).shape = .chain (L.judge env (a.term base)) :=
    congrArg Term.shape (wf.judge_term L env hlink)
  have hnew : (L.judge env (b.term link)).shape = .parens (L.judge env (b.term base)) :=
    congrArg Term.shape ((h.wellFormed wf).judge_term L env hparens)
  have hfailed := unlessFailed_congr [(L.judge env (b.term link)).operand]
    [(L.judge env (a.term link)).operand] (by simp [Term.operand, hlabel])
  refine ⟨hlabel, fun arguments => ?_⟩
  rw [Lexicon.judgeCall, Lexicon.judgeCall, hold, hnew]
  simp only [hfailed]

end

/-! ## Operators -/

section

variable (hnode : a.expr e = .ok node) (hreceiver : node.kind.receiver? = some p)
  (hops : a.Builds link p ops)
  (halike : L.Alike (L.judge env (a.term p)) (L.judge env (b.term p)))
include hnode hreceiver hops halike

/-- What an operator is applied to is alike: besides the link there are only operands that do not
contain the name. -/
theorem alike_slot {z : ExprId} (hz : z ∈ node.kind.slots) :
    L.Alike (L.judge env (a.term z)) (L.judge env (b.term z)) := by
  by_cases hzp : z = p
  · exact hzp ▸ halike
  · rw [h.term_eq wf (wf.contains_child _ _ ((child_expr_iff hnode).2 ⟨z, hz, rfl⟩))
      (h.not_below_of_slot wf hnode hreceiver hops hz hzp)]
    exact ⟨rfl, fun _ => rfl⟩

/-- An operator on what is alike gets the same verdict. -/
theorem verdict_eq (mark : Mark) :
    L.verdict env mark (node.kind.map fun z => L.judge env (b.term z)) =
      L.verdict env mark (node.kind.map fun z => L.judge env (a.term z)) := by
  refine L.verdict_congr_operands env mark (fun z hz => ?_) fun z hz => ?_
  · exact congrArg Verdict.type (h.alike_slot wf L hnode hreceiver hops halike hz).label
  · exact (h.alike_slot wf L hnode hreceiver hops halike (Expr.mem_slots_of_callee? hz)).call

/-- In both arenas an operator has one verdict, until the chain is closed. -/
theorem exists_verdict : ∃ v, (L.judge env (a.term e)).label = (a.mark e).close v ∧
    (L.judge env (b.term e)).label = (b.mark e).close v := by
  have hnode' := h.expr_step hnode hreceiver hops
  have hold : (node.kind.map fun z => L.judge env (a.term z)).receiver? =
      some (L.judge env (a.term p)) := by
    rw [Expr.receiver?_map, hreceiver]
    rfl
  have hnew : (node.kind.map fun z => L.judge env (b.term z)).receiver? =
      some (L.judge env (b.term p)) := by
    rw [Expr.receiver?_map, hreceiver]
    rfl
  have hcallee : (b.mark e).isCallee = (a.mark e).isCallee := by rw [mark, mark, h.isCallee_eq]
  refine ⟨L.verdict env ⟨(a.mark e).isCallee, false⟩
    (node.kind.map fun z => L.judge env (a.term z)), ?_, ?_⟩
  · rw [wf.judge_term L env hnode]
    exact L.verdict_of_receiver? env hold
  · rw [(h.wellFormed wf).judge_term L env hnode']
    exact (L.verdict_of_receiver? env hnew).trans
      (by rw [h.verdict_eq wf L hnode hreceiver hops halike, hcallee])

/-- The operator leaves the same note on what it is applied to. -/
theorem noteOn_eq : (L.judge env (b.term e)).noteOn (L.judge env (b.term p)) =
    (L.judge env (a.term e)).noteOn (L.judge env (a.term p)) := by
  obtain ⟨v, hold, hnew⟩ := h.exists_verdict wf L hnode hreceiver hops halike
  have hsettled : (L.judge env (b.term e)).label.callee =
      (L.judge env (a.term e)).label.callee := by
    rw [hold, hnew, Mark.callee_close, Mark.callee_close]
  have hids : (L.judge env (b.term e)).shape.callee?.map (·.id) =
      (L.judge env (a.term e)).shape.callee?.map (·.id) := by
    rw [(h.wellFormed wf).judge_term L env (h.expr_step hnode hreceiver hops),
      wf.judge_term L env hnode]
    simp only [Expr.callee?_map, Option.map_map, Function.comp_def, Lexicon.judge_id, term_id]
  simp only [Term.noteOn, hids, hsettled, halike.label, Lexicon.judge_id, term_id]

/-- An operator on what is alike is alike, if it closes no chain. -/
theorem alike_step (hmark : b.mark e = a.mark e ∧ (a.mark e).closesChain = false) :
    L.Alike (L.judge env (a.term e)) (L.judge env (b.term e)) := by
  obtain ⟨v, hold, hnew⟩ := h.exists_verdict wf L hnode hreceiver hops halike
  have hlabel : (L.judge env (b.term e)).label = (L.judge env (a.term e)).label := by
    rw [hold, hnew, hmark.1]
  have hshape := congrArg Term.shape (wf.judge_term L env hnode)
  have hshape' := congrArg Term.shape
    ((h.wellFormed wf).judge_term L env (h.expr_step hnode hreceiver hops))
  refine ⟨hlabel, L.judgeCall_congr_callee hshape hshape' hlabel fun z hz => ?_⟩
  exact congrArg Verdict.type (h.alike_slot wf L hnode hreceiver hops halike hz).label

end

/-! ## Chains -/

section

variable (hx : (L.judgeName env x).type = some X)
  (hy : (L.judgeName env y).type = some X.unwrapped)
include hx hy

/-- What operators are applied to is alike, since none but the last operator closes the chain. -/
theorem alike (hops : a.Builds link e ops)
    (hmark : b.mark e = a.mark e ∧ (a.mark e).closesChain = false) :
    L.Alike (L.judge env (a.term e)) (L.judge env (b.term e)) := by
  induction hops with
  | link => exact h.alike_link wf L hx hy hmark.2
  | step hnode hreceiver hops ih =>
    exact h.alike_step wf L hnode hreceiver hops
      (ih (h.mark_receiver wf hnode hreceiver hops)) hmark

/-- The last operator on the link gives what the last one on the parentheses gives, made
optional. -/
theorem type_outermost (hops : a.Builds link e ops) {s : StmtId}
    (hs : a.Child (.stmt s) (.expr e)) :
    (L.judge env (a.term e)).label.type =
      (L.judge env (b.term e)).label.type.map Ty.optionalised := by
  have hcloses := h.closesChain_outermost wf hops hs
  cases hops with
  | link =>
    rw [h.label_link wf L hx, h.label_parens wf L hy, Mark.type_close, if_pos hcloses]
  | step hnode hreceiver hops =>
    have halike := h.alike wf L hx hy hops (h.mark_receiver wf hnode hreceiver hops)
    obtain ⟨v, hold, hnew⟩ := h.exists_verdict wf L hnode hreceiver hops halike
    rw [hold, hnew, Mark.type_close, Mark.type_close, if_pos hcloses]
    split_ifs
    · -- another link among the operators closes the chain on the parentheses, too
      rw [Option.map_map]
      exact congrArg (v.type.map ·) (funext fun t => (t.optionalised_optionalised).symm)
    · rfl

/-- On every operator but the last one, the same note is found. -/
theorem exists_note (hops : a.Builds link e ops) {q : ExprId} (hq : q ∈ ops.tail)
    (n n' : ExprNote) : ∃ note, ⟨q, note⟩ ∈ (L.judge env (a.term e)).findings n ∧
      ⟨q, note⟩ ∈ (L.judge env (b.term e)).findings n' := by
  induction hops generalizing n n' with
  | link => cases hq
  | @step e p node ops hnode hreceiver hops ih =>
    have halike := h.alike wf L hx hy hops (h.mark_receiver wf hnode hreceiver hops)
    have hnote := h.noteOn_eq wf L hnode hreceiver hops halike
    have hnode' := h.expr_step hnode hreceiver hops
    have hp := Expr.mem_slots_of_receiver? hreceiver
    -- the note that the operator leaves on what it is applied to, or one that is found further in
    obtain ⟨note, hold, hnew⟩ : ∃ note,
        ⟨q, note⟩ ∈ (L.judge env (a.term p)).findings
          ((L.judge env (a.term e)).noteOn (L.judge env (a.term p))) ∧
        ⟨q, note⟩ ∈ (L.judge env (b.term p)).findings
          ((L.judge env (b.term e)).noteOn (L.judge env (b.term p))) := by
      cases hops with
      | link => cases hq
      | step =>
        rcases List.mem_cons.1 hq with rfl | hq
        · exact ⟨_, Lexicon.mem_findings.2 (.inl (by rw [term_id])),
            Lexicon.mem_findings.2 (.inl (by rw [term_id, hnote]))⟩
        · exact ih hq _ _
    exact ⟨note, Lexicon.mem_findings_of_operand (wf.term_mem_slots hnode hp) hold,
      Lexicon.mem_findings_of_operand ((h.wellFormed wf).term_mem_slots hnode' hp) hnew⟩

end

/-! ## The way to a statement -/

omit wf in
theorem opens_eq : b.opens = a.opens := by
  funext P
  rw [opens, opens, h.owns_eq]

/-- A statement declares the same around itself. -/
theorem declares_eq {s : StmtId} (hs : a.contains (.stmt s)) :
    (b.program s).declares a.opens = (a.program s).declares a.opens := by
  induction s using wf.stmt_induct with
  | node s ih =>
    obtain ⟨node, hnode⟩ := exists_stmt hs
    rw [wf.program_eq hnode, (h.wellFormed wf).program_eq (h.stmt_eq ▸ hnode),
      Program.declares_eq, Program.declares_eq]
    simp only [opens, Stmt.declared_map, Stmt.stmtSlots_map, List.flatMap_map]
    congr 2
    refine List.flatMap_congr fun t ht => ?_
    have hchild : a.Child (.stmt s) (.stmt t) := (child_stmt_iff hnode).2 (.inr ⟨t, ht, rfl⟩)
    exact ih t hchild (wf.contains_child _ _ hchild)

/-- The walks through several statements start alike. -/
theorem legsAll_eq {ts : List StmtId} (hts : ∀ t ∈ ts, a.contains (.stmt t)) (env : Env) :
    Lexicon.legsAll a.opens (ts.map b.program) env =
      (Lexicon.legsAll a.opens (ts.map a.program) env).map fun c =>
        ⟨b.program c.program.id, c.initial, c.env⟩ := by
  induction ts generalizing env with
  | nil => rfl
  | cons t rest ih =>
    simp only [List.map_cons, Lexicon.legsAll, program_id,
      h.declares_eq wf (hts t List.mem_cons_self),
      ih fun u hu => hts u (List.mem_cons_of_mem _ hu)]

/-- The walks through the inner statements start alike, if the name does not stand in what a loop
iterates over. -/
theorem legs_eq {s : StmtId} {node : StmtNode} (hnode : a.stmt s = .ok node)
    (hout : ∀ z ∈ node.kind.exprSlots, ¬ a.Below (.expr z) (.expr base)) (initial : Scope)
    (env : Env) : L.legs a.opens ⟨b.program s, initial, env⟩ =
      (L.legs a.opens ⟨a.program s, initial, env⟩).map fun c =>
        ⟨b.program c.program.id, c.initial, c.env⟩ := by
  have hstmt : ∀ t ∈ node.kind.stmtSlots, a.contains (.stmt t) := fun t ht =>
    wf.contains_child _ _ ((child_stmt_iff hnode).2 (.inr ⟨t, ht, rfl⟩))
  have hinner := h.legsAll_eq wf hstmt
  have hinside := inside_program a b s initial env
  have hold := wf.program_eq hnode
  have hnew := (h.wellFormed wf).program_eq (h.stmt_eq ▸ hnode)
  cases hk : node.kind with
  | forIn pattern z body =>
    rw [hk] at hold hnew hout
    have hz : b.term z = a.term z :=
      h.term_eq wf (wf.contains_child _ _ ((child_stmt_iff hnode).2
        (.inl ⟨z, hk ▸ List.mem_singleton.2 rfl, rfl⟩))) (hout z (List.mem_singleton.2 rfl))
    rw [Lexicon.legs, Lexicon.legs, hinside]
    generalize Leg.inside a.opens ⟨a.program s, initial, env⟩ = inside
    rw [hold, hnew]
    by_cases hbody : a.owns body = true <;> by_cases hs : a.owns s = true <;>
      simp [Stmt.map, opens, hz, hbody, hs]
  | _ =>
    rw [hk] at hold hnew hinner
    rw [L.legs_eq_legsAll _ (by rw [hnew]; rintro _ _ _ ⟨⟩),
      L.legs_eq_legsAll _ (by rw [hold]; rintro _ _ _ ⟨⟩), hinside]
    generalize Leg.inside a.opens ⟨a.program s, initial, env⟩ = inside
    simp only [hold, hnew, Stmt.stmtSlots_map, hinner]

/-- The walks enter an inner statement in which the name stands with the same names around them. -/
theorem exists_leg {s t : StmtId} (hchild : a.Child (.stmt t) (.stmt s))
    (hbase : a.Below (.stmt s) (.expr base)) (initial : Scope) (env : Env) :
    ∃ c ∈ L.legs a.opens ⟨a.program t, initial, env⟩, c.program = a.program s ∧
      ⟨b.program s, c.initial, c.env⟩ ∈ L.legs a.opens ⟨b.program t, initial, env⟩ := by
  obtain ⟨node, hnode⟩ := exists_stmt (contains_of_children hchild.choose_spec.1)
  have hslot : s ∈ node.kind.stmtSlots := by
    rcases (child_stmt_iff hnode).1 hchild with ⟨_, _, heq⟩ | ⟨_, hslot, heq⟩ <;> cases heq
    exact hslot
  have hout : ∀ z ∈ node.kind.exprSlots, ¬ a.Below (.expr z) (.expr base) := by
    intro z hz hbelow
    cases wf.eq_of_below ((child_stmt_iff hnode).2 (.inl ⟨z, hz, rfl⟩)) hchild hbelow hbase
  have hmem : a.program s ∈ (L.legs a.opens ⟨a.program t, initial, env⟩).map (·.program) := by
    rw [L.program_legs, wf.program_eq hnode, Stmt.stmtSlots_map]
    exact List.mem_map.2 ⟨s, hslot, rfl⟩
  obtain ⟨c, hc, hprogram⟩ := List.mem_map.1 hmem
  refine ⟨c, hc, hprogram, ?_⟩
  rw [h.legs_eq wf L hnode hout]
  exact List.mem_map.2 ⟨c, hc, by rw [hprogram, program_id]⟩

/-- The walks come to a statement in which the name stands with the same names around them. -/
theorem exists_leads {root s : StmtId} (hs : a.Below (.stmt root) (.stmt s))
    (hbase : a.Below (.stmt s) (.expr base)) (initial : Scope) (env : Env) :
    ∃ c : Leg, c.program = a.program s ∧
      L.Leads a.opens ⟨a.program root, initial, env⟩ c ∧
      L.Leads b.opens ⟨b.program root, initial, env⟩ ⟨b.program s, c.initial, c.env⟩ := by
  rw [h.opens_eq]
  obtain ⟨n, hn⟩ : ∃ n, n = NodeId.stmt s := ⟨_, rfl⟩
  rw [← hn] at hs
  induction hs generalizing s with
  | refl =>
    cases hn
    exact ⟨_, rfl, .refl, .refl⟩
  | @tail m n _ hchild ih =>
    subst hn
    cases m with
    | expr e =>
      obtain ⟨_, hx⟩ := Below.of_expr (.single hchild)
      cases hx
    | stmt t =>
      obtain ⟨⟨P, initial, env⟩, rfl, hold, hnew⟩ := ih (.of_child hchild hbase) rfl
      obtain ⟨d, hd, hprogram, hd'⟩ := h.exists_leg wf L hchild hbase initial env
      exact ⟨d, hprogram, hold.tail hd, hnew.tail hd'⟩

/-- Both walks type what stands in a statement in one environment. Names that are not declared on
the way are not found there. -/
theorem exists_env {root s : StmtId} (hroot : a.contains (.stmt root))
    (hs : a.Below (.stmt root) (.stmt s)) (he : a.Child (.stmt s) (.expr e))
    (hbase : a.Below (.expr e) (.expr base)) (around : Env) :
    ∃ env, (∀ name, ¬ a.Binds (.stmt root) name → (around.All fun d => d.name ≠ name) →
        env.find? name = none) ∧
      (L.judge env (a.term e)).findings (L.judge env (a.term e)).label.note ⊆
        (L.take a.opens ⟨a.program root, {}, around⟩).findings ∧
      (L.judge env (b.term e)).findings (L.judge env (b.term e)).label.note ⊆
        (L.take b.opens ⟨b.program root, {}, around⟩).findings := by
  obtain ⟨⟨_, initial, env⟩, rfl, hold, hnew⟩ :=
    h.exists_leads wf L hs (.of_child he hbase) {} around
  obtain ⟨node, hnode⟩ := exists_stmt (wf.contains_of_below hroot hs)
  have hslot : e ∈ node.kind.exprSlots := by
    rcases (child_stmt_iff hnode).1 he with ⟨_, hmem, heq⟩ | ⟨_, _, heq⟩ <;> cases heq
    exact hmem
  refine ⟨(Leg.inside a.opens ⟨a.program s, initial, env⟩).declare node.kind.declared,
    fun name hname hall => Env.find?_eq_none (.declare ?_ ?_),
    hold.findings_expr wf hnode hslot rfl,
    hnew.findings_expr (h.wellFormed wf) (h.stmt_eq ▸ hnode) hslot
      (by rw [h.opens_eq, inside_program a b])⟩
  · exact hold.inside_all (wf.holds_program hroot) (by rwa [program_id])
      (Leg.inside_all .empty hall a.opens)
  · have hP := wf.holds_program (wf.contains_of_below hroot hs)
    have hfree : ¬ a.Binds (.stmt (a.program s).id) name := by
      rw [program_id]
      exact fun hbinds => hname (hbinds.of_below hs)
    have hdeclared := Lexicon.declared_all hP hfree
    rwa [wf.program_eq hnode, Stmt.declared_map] at hdeclared

end Arena.Unlinks
end ExprTyping
