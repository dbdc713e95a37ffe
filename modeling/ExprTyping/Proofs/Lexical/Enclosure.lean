import ExprTyping.Proofs.Arena.Enclosure
import ExprTyping.Proofs.Lexical.Comparison
import ExprTyping.Proofs.Lexical.Operands

/-!
# Typing what stands in parentheses

Parentheses have the type of what they enclose. So a walk through a program in which an expression
has been put in parentheses finds the same notes as before, and besides only the note on the
parentheses (`Arena.Encloses.walk_compares`), provided that nothing around the expression looks at
more than its type (`Arena.Enclosable`). It reports the same.
-/

namespace ExprTyping

/-! ## What is found -/

/-- In `fs'` is found what is in `fs`, and besides only a note on the parentheses `p`, which gives
them the type that is found on `e`. -/
structure FindsEnclosed (e p : ExprId) (fs fs' : List Finding) : Prop where
  old : ∀ f ∈ fs', f.expr ≠ p → f ∈ fs
  new : ∀ f ∈ fs', f.expr = p → ∃ g ∈ fs, g.expr = e ∧ f.note = { type := g.note.type }

namespace FindsEnclosed

variable {e p : ExprId} {α : Type} {F F' : α → List Finding} {fs fs' gs gs' : List Finding}

theorem nil (e p : ExprId) : FindsEnclosed e p [] [] where
  old _ hf := (List.not_mem_nil hf).elim
  new _ hf := (List.not_mem_nil hf).elim

theorem append (h : FindsEnclosed e p fs fs') (h' : FindsEnclosed e p gs gs') :
    FindsEnclosed e p (fs ++ gs) (fs' ++ gs') where
  old f hf hne := List.mem_append.2 ((List.mem_append.1 hf).imp (h.old f · hne) (h'.old f · hne))
  new f hf heq := by
    rcases List.mem_append.1 hf with hf | hf
    · obtain ⟨g, hg, hnote⟩ := h.new f hf heq
      exact ⟨g, List.mem_append_left _ hg, hnote⟩
    · obtain ⟨g, hg, hnote⟩ := h'.new f hf heq
      exact ⟨g, List.mem_append_right _ hg, hnote⟩

theorem flatMap {xs : List α} (h : ∀ x ∈ xs, FindsEnclosed e p (F x) (F' x)) :
    FindsEnclosed e p (xs.flatMap F) (xs.flatMap F') := by
  induction xs with
  | nil => exact nil e p
  | cons x rest ih =>
    rw [List.flatMap_cons, List.flatMap_cons]
    exact (h x List.mem_cons_self).append (ih fun y hy => h y (List.mem_cons_of_mem _ hy))

/-- The same note on another expression. -/
theorem cons (h : FindsEnclosed e p fs fs') {x : ExprId} (hx : x ≠ p) (note : ExprNote) :
    FindsEnclosed e p (⟨x, note⟩ :: fs) (⟨x, note⟩ :: fs') where
  old f hf hne := List.mem_cons.2 ((List.mem_cons.1 hf).imp id (h.old f · hne))
  new f hf heq := by
    rcases List.mem_cons.1 hf with rfl | hf
    · exact absurd heq hx
    · obtain ⟨g, hg, hnote⟩ := h.new f hf heq
      exact ⟨g, List.mem_cons_of_mem _ hg, hnote⟩

/-- The parentheses have the type of what they enclose. -/
theorem parens {note : ExprNote} (h : FindsEnclosed e p fs fs') (hnote : ⟨e, note⟩ ∈ fs) :
    FindsEnclosed e p fs (⟨p, { type := note.type }⟩ :: fs') where
  old f hf hne := by
    rcases List.mem_cons.1 hf with rfl | hf
    · exact absurd rfl hne
    · exact h.old f hf hne
  new f hf heq := by
    rcases List.mem_cons.1 hf with rfl | hf
    · exact ⟨_, hnote, rfl, rfl⟩
    · exact h.new f hf heq

end FindsEnclosed

/-! ## Terms -/

namespace Arena

variable {a b : Arena} {e p x y : ExprId} {type : Option Ty} {env : Env}

namespace Encloses

variable (h : a.Encloses b e p) (wf : a.WellFormed) (L : Lexicon)
include h wf

theorem judge_parens (env : Env) : L.judge env (b.term p) =
    ⟨p, .typed (L.judge env (b.term e)).label.type, .parens (L.judge env (b.term e))⟩ := by
  obtain ⟨parent, hp⟩ := h.expr_parens
  exact (h.wellFormed wf).judge_term L env hp

theorem judge_old (env : Env) {node : ExprNode} (hnode : a.expr x = .ok node) :
    L.judge env (b.term x) =
      ⟨x, L.verdict env (b.mark x) (node.kind.map fun y => L.judge env (b.term (enclosed e p y))),
        node.kind.map fun y => L.judge env (b.term (enclosed e p y))⟩ := by
  obtain ⟨parent, hnode⟩ := h.exists_expr_old hnode
  rw [(h.wellFormed wf).judge_term L env hnode]
  simp only [Expr.map_map]

/-- The parentheses have the type of the expression in them. -/
theorem type_enclosed (hy : (L.judge env (b.term y)).label = (L.judge env (a.term y)).label) :
    (L.judge env (b.term (enclosed e p y))).label.type = (L.judge env (a.term y)).label.type := by
  by_cases hye : y = e
  · subst hye
    rw [enclosed_self, h.judge_parens wf]
    show (L.judge env (b.term y)).label.type = _
    rw [hy]
  · rw [enclosed_of_ne hye, hy]

variable (henclosable : a.Enclosable e type)
include henclosable

/-- A call of the parentheses is judged like one of the expression in them. -/
theorem called_enclosed (hy : a.contains (.expr y)) (hcallee : a.isCallee y = .ok true)
    (htype : y = e → (L.judge env (a.term e)).label.type = type)
    (hlabel : (L.judge env (b.term y)).label = (L.judge env (a.term y)).label)
    (hbelow : ∀ z, a.Child (.expr y) (.expr z) →
      (L.judge env (b.term z)).label = (L.judge env (a.term z)).label)
    (arguments : List (Argument (Term Verdict))) :
    L.judgeCall (L.judge env (b.term (enclosed e p y))) arguments =
      L.judgeCall (L.judge env (a.term y)) arguments := by
  obtain ⟨node, hnode⟩ := exists_expr hy
  have hshape := congrArg Term.shape (wf.judge_term L env hnode)
  by_cases hye : y = e
  · subst hye
    have hmember : (L.judge env (a.term y)).shape.isMember = false := by
      rw [hshape, Expr.isMember_map, henclosable.not_member hcallee node hnode]
    have hname : (L.judge env (a.term y)).shape.isIdentifier = true →
        ∀ subject, (L.judge env (a.term y)).label.type ≠ some (.metatype subject) := by
      rw [hshape, Expr.isIdentifier_map, htype rfl]
      exact henclosable.not_type hcallee node hnode
    have hsame := h.type_enclosed wf L hlabel
    have hparens := congrArg Term.shape (h.judge_parens wf L env)
    rw [enclosed_self] at hsame ⊢
    have hoperand := unlessFailed_congr [(L.judge env (b.term p)).operand]
      [(L.judge env (a.term y)).operand] (congrArg (fun t => [t]) hsame)
    have hmember' : (L.judge env (b.term p)).shape.isMember = false := by
      rw [hparens]
      rfl
    have hname' : ¬ (L.judge env (b.term p)).shape.isIdentifier = true := by
      rw [hparens]
      exact Bool.false_ne_true
    rw [L.judgeCall_of_plain hmember hname, L.judgeCall_of_plain hmember' (absurd · hname'),
      hoperand]
  · rw [enclosed_of_ne hye]
    have hshape' := congrArg Term.shape (h.judge_old wf L env hnode)
    exact L.judgeCall_congr_callee hshape hshape' hlabel (fun z hz =>
      h.type_enclosed wf L (hbelow z ((child_expr_iff hnode).2 ⟨z, hz, rfl⟩))) arguments

/-- Every expression gets the verdict that it got without the parentheses. -/
theorem label_old (hx : a.contains (.expr x))
    (htype : a.Below (.expr x) (.expr e) → (L.judge env (a.term e)).label.type = type) :
    (L.judge env (b.term x)).label = (L.judge env (a.term x)).label := by
  induction x using wf.expr_induct with
  | node x ih =>
    obtain ⟨node, hnode⟩ := exists_expr hx
    have below : ∀ y, a.Child (.expr x) (.expr y) →
        (L.judge env (b.term y)).label = (L.judge env (a.term y)).label := fun y hy =>
      ih y (.single hy) (wf.contains_child _ _ hy) fun he => htype (.of_child hy he)
    have slot : ∀ y ∈ node.kind.slots, a.Child (.expr x) (.expr y) :=
      fun y hy => (child_expr_iff hnode).2 ⟨y, hy, rfl⟩
    have hmark : ∀ k : Expr (Term Verdict), k.isMember = node.kind.isMember →
        L.verdict env (b.mark x) k = L.verdict env (a.mark x) k := by
      intro k hk
      by_cases hxe : x = e
      · subst hxe
        obtain ⟨called, hcalled⟩ := wf.exists_isCallee hx
        rw [h.mark_self wf henclosable]
        refine L.verdict_congr_mark env rfl ?_
        cases called with
        | false => exact .inl (by rw [mark, hcalled]; rfl)
        | true => exact .inr (hk.trans (henclosable.not_member hcalled node hnode))
      · rw [h.mark_of_ne wf henclosable hx hxe]
    rw [wf.judge_term L env hnode, h.judge_old wf L env hnode]
    show L.verdict env (b.mark x) _ = L.verdict env (a.mark x) _
    rw [hmark _ (Expr.isMember_map _ _)]
    refine L.verdict_congr_operands env (a.mark x)
      (fun y hy => h.type_enclosed wf L (below y (slot y hy))) fun y hy arguments => ?_
    have hchild := slot y (Expr.mem_slots_of_callee? hy)
    refine h.called_enclosed wf L henclosable (wf.contains_child _ _ hchild)
      (wf.isCallee_of_callee? hnode hy) (fun hye => htype (hye ▸ .of_child hchild (.refl _)))
      (below y hchild) (fun z hz => ?_) arguments
    exact ih z (.tail (.single hchild) hz) (wf.contains_child _ _ hz)
      fun he => htype (.of_child hchild (.of_child hz he))

/-- The expression keeps its own note: it is not a member access that is called. -/
theorem noteOn_self (hx : a.contains (.expr x)) (hchild : a.Child (.expr x) (.expr e)) :
    (L.judge env (a.term x)).noteOn (L.judge env (a.term e)) =
      (L.judge env (a.term e)).label.note := by
  obtain ⟨node, hnode⟩ := exists_expr hx
  obtain ⟨self, hself⟩ := exists_expr h.contains_self
  obtain ⟨y, hy, heq⟩ := (child_expr_iff hnode).1 hchild
  cases heq
  rcases Lexicon.noteOn_eq_or wf (wf.holds_term hx) (wf.term_mem_slots hnode hy) with hown |
    ⟨hmember, hcallee⟩
  · exact hown
  · rw [wf.term_eq hself] at hmember hcallee
    have hcalled : a.isCallee e = .ok true := by
      obtain ⟨called, hcalled⟩ := wf.exists_isCallee h.contains_self
      rw [mark, hcalled] at hcallee
      exact hcalled.trans (congrArg Except.ok hcallee)
    rw [Expr.isMember_map, henclosable.not_member hcalled self hself] at hmember
    cases hmember

omit henclosable in
/-- The parentheses keep their own note. -/
theorem noteOn_parens (hx : a.contains (.expr x))
    (hchild : a.Child (.expr x) (.expr e)) :
    (L.judge env (b.term x)).noteOn (L.judge env (b.term p)) =
      { type := (L.judge env (b.term e)).label.type } := by
  obtain ⟨node, hnode⟩ := exists_expr hx
  obtain ⟨y, hy, heq⟩ := (child_expr_iff hnode).1 hchild
  cases heq
  have hmem : b.term p ∈ (b.term x).shape.slots := by
    rw [h.term_old wf hnode, Expr.slots_map]
    exact List.mem_map.2 ⟨e, hy, by rw [enclosed_self]⟩
  obtain ⟨_, hparens⟩ := h.expr_parens
  have wf' := h.wellFormed wf
  rcases Lexicon.noteOn_eq_or wf' (wf'.holds_term (h.contains_old hx)) hmem with hown |
    ⟨hmember, -⟩
  · rw [hown, h.judge_parens wf]
    rfl
  · rw [wf'.term_eq hparens] at hmember
    cases hmember

/-- Any other operand has the note that it had. -/
theorem noteOn_of_ne (hx : a.contains (.expr x)) (hchild : a.Child (.expr x) (.expr y))
    (hne : y ≠ e)
    (htype : a.Below (.expr x) (.expr e) → (L.judge env (a.term e)).label.type = type) :
    (L.judge env (b.term x)).noteOn (L.judge env (b.term y)) =
      (L.judge env (a.term x)).noteOn (L.judge env (a.term y)) := by
  obtain ⟨node, hnode⟩ := exists_expr hx
  obtain ⟨_, hnode'⟩ := h.exists_expr_old hnode
  have hy := wf.contains_child _ _ hchild
  have hcallee : node.kind.callee?.map (enclosed e p) = some y ↔ node.kind.callee? = some y := by
    simp only [Option.map_eq_some_iff, h.enclosed_eq_iff hy hne, exists_eq_right]
  simp only [wf.noteOn_term L env hnode, (h.wellFormed wf).noteOn_term L env hnode',
    Expr.callee?_map, hcallee, h.label_old wf L henclosable hx htype,
    h.label_old wf L henclosable hy fun he => htype (.of_child hchild he)]

/-- What is found on the expression in its parentheses. -/
theorem findings_parens (htype : (L.judge env (a.term e)).label.type = type)
    (hfound : ∀ note, FindsEnclosed e p ((L.judge env (a.term e)).findings note)
      ((L.judge env (b.term e)).findings note)) :
    FindsEnclosed e p ((L.judge env (a.term e)).findings (L.judge env (a.term e)).label.note)
      ((L.judge env (b.term p)).findings { type := (L.judge env (b.term e)).label.type }) := by
  have hlabel := h.label_old wf L henclosable h.contains_self fun _ => htype
  obtain ⟨_, hparens⟩ := h.expr_parens
  have hnote : (L.judge env (b.term p)).noteOn (L.judge env (b.term e)) =
      (L.judge env (a.term e)).label.note := by
    rw [(h.wellFormed wf).noteOn_term L env hparens, ← hlabel]
    rfl
  rw [(h.wellFormed wf).findings_term L env hparens, hlabel]
  simp only [Expr.slots, List.flatMap_cons, List.flatMap_nil, List.append_nil, hnote]
  exact (hfound _).parens (a.own_mem_findings L env e _)

/-- On every expression is found what was found without the parentheses. -/
theorem findings_old (hx : a.contains (.expr x))
    (htype : a.Below (.expr x) (.expr e) → (L.judge env (a.term e)).label.type = type)
    (note : ExprNote) :
    FindsEnclosed e p ((L.judge env (a.term x)).findings note)
      ((L.judge env (b.term x)).findings note) := by
  induction x using wf.expr_induct generalizing note with
  | node x ih =>
    obtain ⟨node, hnode⟩ := exists_expr hx
    obtain ⟨_, hnode'⟩ := h.exists_expr_old hnode
    rw [wf.findings_term L env hnode, (h.wellFormed wf).findings_term L env hnode',
      Expr.slots_map, List.flatMap_map]
    refine .cons (.flatMap fun y hy => ?_) (h.ne_of_contains hx) note
    have hchild : a.Child (.expr x) (.expr y) := (child_expr_iff hnode).2 ⟨y, hy, rfl⟩
    have hfound : ∀ note, FindsEnclosed e p ((L.judge env (a.term y)).findings note)
        ((L.judge env (b.term y)).findings note) := fun note =>
      ih y (.single hchild) (wf.contains_child _ _ hchild)
        (fun he => htype (.of_child hchild he)) note
    by_cases hye : y = e
    · subst hye
      rw [enclosed_self, h.noteOn_self wf L henclosable hx hchild,
        h.noteOn_parens wf L hx hchild]
      exact h.findings_parens wf L henclosable (htype (.of_child hchild (.refl _))) hfound
    · rw [enclosed_of_ne hye, h.noteOn_of_ne wf L henclosable hx hchild hye htype]
      exact hfound _

omit henclosable in
/-- About the parentheses nothing is reported. -/
theorem diagnostics_enclosed
    (hy : (L.judge env (b.term y)).diagnostics = (L.judge env (a.term y)).diagnostics) :
    (L.judge env (b.term (enclosed e p y))).diagnostics =
      (L.judge env (a.term y)).diagnostics := by
  by_cases hye : y = e
  · subst hye
    rw [enclosed_self, ← hy, h.judge_parens wf, Term.diagnostics_eq]
    simp [Expr.slots, Verdict.typed]
  · rw [enclosed_of_ne hye, hy]

/-- What was reported without the parentheses is reported with them. -/
theorem diagnostics_old (hx : a.contains (.expr x))
    (htype : a.Below (.expr x) (.expr e) → (L.judge env (a.term e)).label.type = type) :
    (L.judge env (b.term x)).diagnostics = (L.judge env (a.term x)).diagnostics := by
  induction x using wf.expr_induct with
  | node x ih =>
    obtain ⟨node, hnode⟩ := exists_expr hx
    obtain ⟨_, hnode'⟩ := h.exists_expr_old hnode
    rw [wf.diagnostics_term L env hnode, (h.wellFormed wf).diagnostics_term L env hnode',
      h.label_old wf L henclosable hx htype, Expr.slots_map, List.flatMap_map]
    refine congrArg (· ++ _) (List.flatMap_congr fun y hy => ?_)
    have hchild : a.Child (.expr x) (.expr y) := (child_expr_iff hnode).2 ⟨y, hy, rfl⟩
    exact h.diagnostics_enclosed wf L
      (ih y (.single hchild) (wf.contains_child _ _ hchild) fun he => htype (.of_child hchild he))

end Encloses
end Arena

/-! ## Walks -/

/-- Parentheses around an expression on which only notes of this type are found. -/
def Comparison.parens (e p : ExprId) (type : Option Ty) : Comparison where
  presumes f := f.expr = e → f.note.type = type
  finds := FindsEnclosed e p
  nil := .nil e p
  append := .append

namespace Arena.Encloses

variable {a b : Arena} {e p x : ExprId} {type : Option Ty} {env : Env} (h : a.Encloses b e p)
  (wf : a.WellFormed) (henclosable : a.Enclosable e type) (L : Lexicon)
include h wf henclosable

/-- Typing what stands in the slot compares to typing the expression. -/
theorem term_compares (hx : a.contains (.expr x)) :
    (Comparison.parens e p type).Terms L (a.term x) (b.term (enclosed e p x)) := by
  intro env hadmits
  rw [Lexicon.evaluate_singleton] at hadmits
  -- No call leaves another note on the expression, so it gets the type that is found on it.
  have htype : a.Below (.expr x) (.expr e) → (L.judge env (a.term e)).label.type = type :=
    fun he => hadmits _ (wf.own_mem_findings_below L env hx he henclosable.not_member) rfl
  have hlabel := h.label_old wf L henclosable hx htype
  refine ⟨h.type_enclosed wf L hlabel, ?_⟩
  rw [Lexicon.evaluate_singleton, Lexicon.evaluate_singleton]
  refine ⟨?_, rfl, ?_⟩
  · by_cases hxe : x = e
    · subst hxe
      rw [enclosed_self, congrArg Term.label (h.judge_parens wf L env)]
      exact h.findings_parens wf L henclosable (htype (.refl _))
        fun note => h.findings_old wf L henclosable hx htype note
    · rw [enclosed_of_ne hxe, hlabel]
      exact h.findings_old wf L henclosable hx htype _
  · rw [h.diagnostics_enclosed wf L (h.diagnostics_old wf L henclosable hx htype)]
    simp [Comparison.parens]

/-- A walk through the program finds what it found before there were parentheses, and besides only
the note on the parentheses. It finds the same names and reports the same. -/
theorem walk_compares {s : StmtId} (hs : a.contains (.stmt s)) (initial : Scope) :
    (Comparison.parens e p type).Walks (L.walk a.opens (a.program s) initial)
      (L.walk b.opens (b.program s) initial) :=
  L.walk_compares wf hs (fun s _ => h.owns_eq s) (fun _ _ _ hnode => h.program_old wf hnode)
    (fun _ _ _ hchild => h.term_compares wf henclosable L (wf.contains_child _ _ hchild)) initial

end Arena.Encloses
end ExprTyping
