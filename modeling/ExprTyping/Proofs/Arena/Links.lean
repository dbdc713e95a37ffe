import ExprTyping.Proofs.Arena.Climb
import ExprTyping.Proofs.Arena.Reading

/-!
# Optional links and parentheses

`Arena.Unlinks` compares two arenas: where the first has an optional link `x?`, the second has
parentheses `(y)`. They have the same nodes in the same places, so the second is well-formed if the
first is (`Unlinks.wellFormed`), and whatever does not contain the link is the same in both
(`Unlinks.term_eq`).

`Arena.Builds` says which operators an expression applies to the link, the last one first. All but
the last are what the next one is applied to; so in both arenas the last one alone can close the
chain.
-/

namespace ExprTyping.Arena

variable {a b : Arena} {base link e p : ExprId} {x y : String} {node : ExprNode}
  {ops : List ExprId}

/-! ## Chains of operators -/

/-- The expression applies the operators, the last one first, to the link. -/
inductive Builds (a : Arena) (link : ExprId) : ExprId → List ExprId → Prop where
  | link : Builds a link link []
  | step {e p : ExprId} {node : ExprNode} {ops : List ExprId} : a.expr e = .ok node →
      node.kind.receiver? = some p → Builds a link p ops → Builds a link e (e :: ops)

theorem Builds.below_link (h : a.Builds link e ops) : a.Below (.expr e) (.expr link) := by
  induction h with
  | link => exact .refl _
  | step hnode hreceiver _ ih =>
    exact .of_child ((child_expr_iff hnode).2 ⟨_, Expr.mem_slots_of_receiver? hreceiver, rfl⟩) ih

/-- An operator that is applied to the link has it on the way down its receivers. -/
theorem Builds.spineHasLink (h : a.Builds link e ops) (wf : a.WellFormed)
    {parent : Option NodeId} (hlink : a.expr link = .ok ⟨.chain base, parent⟩) :
    a.spineHasLink (a.exprs.size + 1) e = .ok true := by
  obtain ⟨rank, hle, hrank⟩ := wf.exists_exprRank
  induction h with
  | link => rw [spineHasLink_succ hlink]
  | @step e p node ops hnode hreceiver _ ih =>
    have hlt := hrank e p
      ((child_expr_iff hnode).2 ⟨p, Expr.mem_slots_of_receiver? hreceiver, rfl⟩)
    have hsize := hle e
    rw [spineHasLink_succ hnode]
    split
    · rfl
    · rw [hreceiver]
      exact (spineHasLink_eq hrank (by omega) (by omega)).trans ih

/-- An optional link occurs among the expression and the receivers that it is built on. -/
def Linked (a : Arena) (e : ExprId) : Prop :=
  ∃ link ops base parent, a.Builds link e ops ∧ a.expr link = .ok ⟨.chain base, parent⟩

theorem linked_of_spineHasLink {bound : ℕ} (h : a.spineHasLink bound e = .ok true) :
    a.Linked e := by
  induction bound generalizing e with
  | zero => cases h
  | succ bound ih =>
    cases hnode : a.expr e with
    | error fault => rw [spineHasLink, hnode] at h; cases h
    | ok node =>
      obtain ⟨kind, parent⟩ := node
      rw [spineHasLink_succ hnode] at h
      split at h
      · rename_i base hkind
        subst hkind
        exact ⟨e, [], base, parent, .link, hnode⟩
      · split at h
        · obtain ⟨link, ops, base, parent', hbuilds, hlink⟩ := ih h
          exact ⟨link, _, base, parent', .step hnode ‹_› hbuilds, hlink⟩
        · cases h

theorem linked_iff (hnode : a.expr e = .ok node) : a.Linked e ↔
    (∃ base, node.kind = .chain base) ∨ ∃ x, node.kind.receiver? = some x ∧ a.Linked x := by
  constructor
  · rintro ⟨link, ops, base, parent, hbuilds, hlink⟩
    cases hbuilds with
    | link =>
      cases hnode.symm.trans hlink
      exact .inl ⟨base, rfl⟩
    | step hnode' hreceiver hbuilds =>
      cases hnode.symm.trans hnode'
      exact .inr ⟨_, hreceiver, link, _, base, parent, hbuilds, hlink⟩
  · rintro (⟨base, hkind⟩ | ⟨x, hreceiver, link, ops, base, parent, hbuilds, hlink⟩)
    · obtain ⟨kind, parent⟩ := node
      cases hkind
      exact ⟨e, [], base, parent, .link, hnode⟩
    · exact ⟨link, _, base, parent, .step hnode hreceiver hbuilds, hlink⟩

/-- The expression is the outermost step of a chain of accesses with an optional link. -/
def EndsChain (a : Arena) (e : ExprId) : Prop := a.isReceiver e = .ok false ∧ a.Linked e

theorem WellFormed.closesChain_iff (wf : a.WellFormed) (he : a.contains (.expr e)) :
    (a.mark e).closesChain = true ↔ a.EndsChain e := by
  have hlinked : a.spineHasLink (a.exprs.size + 1) e = .ok true ↔ a.Linked e :=
    ⟨linked_of_spineHasLink, fun ⟨_, _, _, _, hbuilds, hlink⟩ => hbuilds.spineHasLink wf hlink⟩
  obtain ⟨isReceiver, hreceiver⟩ := wf.exists_isReceiver he
  obtain ⟨hasLink, hspine⟩ := wf.exists_spineHasLink he
  rw [EndsChain, ← hlinked, mark, closesChain, hreceiver, hspine]
  cases isReceiver <;> cases hasLink <;>
    simp [bind, Except.bind, pure, Except.pure, Except.toOption]

/-- An expression that an operator is applied to does not close a chain. -/
theorem mark_of_isReceiver (h : a.isReceiver e = .ok true) :
    a.mark e = ⟨(a.isCallee e).toOption.getD false, false⟩ := by
  rw [mark, closesChain, h]
  rfl

/-! ## A link or parentheses -/

/-- Where `a` has the optional link `x?`, `b` has the parentheses `(y)`. -/
structure Unlinks (a b : Arena) (base link : ExprId) (x y : String) : Prop where
  size : b.exprs.size = a.exprs.size
  stmts : b.stmts = a.stmts
  expr_base : ∃ parent, a.expr base = .ok ⟨.identifier x, parent⟩ ∧
    b.expr base = .ok ⟨.identifier y, parent⟩
  expr_link : ∃ parent, a.expr link = .ok ⟨.chain base, parent⟩ ∧
    b.expr link = .ok ⟨.parens base, parent⟩
  expr_of_ne : ∀ e, e ≠ base → e ≠ link → b.expr e = a.expr e

namespace Unlinks

variable (h : a.Unlinks b base link x y)
include h

theorem stmt_eq : b.stmt = a.stmt := by
  funext s
  rw [stmt, stmt, h.stmts]

theorem owns_eq : b.owns = a.owns := by
  funext s
  rw [owns, owns, h.stmt_eq]

theorem contains_eq : b.contains = a.contains := by
  funext n
  cases n with
  | expr e => rw [contains, contains, h.size]
  | stmt s => rw [contains, contains, h.stmts]

/-- What is read from an expression is the same, if it is the same for the link and the parentheses
and for all names. -/
theorem read_eq {β : Type} (read : ExprNode → β)
    (hbase : ∀ parent, read ⟨.identifier y, parent⟩ = read ⟨.identifier x, parent⟩)
    (hlink : e = link → ∀ parent, read ⟨.parens base, parent⟩ = read ⟨.chain base, parent⟩) :
    (b.expr e).map read = (a.expr e).map read := by
  by_cases he : e = base
  · subst he
    obtain ⟨parent, ha, hb⟩ := h.expr_base
    rw [ha, hb]
    exact congrArg Except.ok (hbase parent)
  by_cases hl : e = link
  · subst hl
    obtain ⟨parent, ha, hb⟩ := h.expr_link
    rw [ha, hb]
    exact congrArg Except.ok (hlink rfl parent)
  · rw [h.expr_of_ne e he hl]

theorem children_eq : b.children = a.children := by
  funext n
  cases n with
  | expr e =>
    exact h.read_eq (fun node => node.kind.slots.map NodeId.expr) (fun _ => rfl) fun _ _ => rfl
  | stmt s => rw [children, children, h.stmt_eq]

theorem parent_eq : b.parent = a.parent := by
  funext n
  cases n with
  | expr e => exact h.read_eq (fun node => node.parent) (fun _ => rfl) fun _ _ => rfl
  | stmt s => rw [parent, parent, h.stmt_eq]

theorem child_eq : b.Child = a.Child := by
  funext n m
  rw [Child, Child, h.children_eq]

theorem wellFormed (wf : a.WellFormed) : b.WellFormed := by
  have hparent : b.Parent = a.Parent := by
    funext n m
    rw [Parent, Parent, h.parent_eq]
  constructor
  · rw [h.child_eq, h.contains_eq]
    exact wf.contains_child
  · rw [hparent, h.contains_eq]
    exact wf.contains_parent
  · rw [h.children_eq]
    exact wf.nodup_children
  · rw [h.child_eq, hparent]
    exact wf.child_iff_parent
  · rw [hparent]
    exact wf.acyclic

theorem ownersAbove_eq : b.ownersAbove = a.ownersAbove := by
  have hancestors : ∀ bound n, b.ancestorsWithin bound n = a.ancestorsWithin bound n := by
    intro bound
    induction bound with
    | zero => exact fun n => rfl
    | succ bound ih =>
      intro n
      simp only [ancestorsWithin, h.parent_eq, ih]
  have howner : b.owner? = a.owner? := by
    funext n
    cases n with
    | expr e => rfl
    | stmt s => rw [owner?, owner?, h.owns_eq]
  funext n
  rw [ownersAbove, ownersAbove, ancestors, ancestors, Arena.size, Arena.size, h.size, h.stmts,
    hancestors, howner]

theorem child_base : a.Child (.expr link) (.expr base) := by
  obtain ⟨parent, hlink, -⟩ := h.expr_link
  exact (child_expr_iff hlink).2 ⟨base, List.mem_singleton.2 rfl, rfl⟩

theorem ne_link_of_not_below (hbelow : ¬ a.Below (.expr e) (.expr base)) : e ≠ link := by
  rintro rfl
  exact hbelow (.single h.child_base)

theorem expr_eq (hbelow : ¬ a.Below (.expr e) (.expr base)) : b.expr e = a.expr e :=
  h.expr_of_ne e (by rintro rfl; exact hbelow (.refl _)) (h.ne_link_of_not_below hbelow)

/-! ## Marks -/

theorem parentExpr_eq : b.parentExpr = a.parentExpr := by
  funext e
  have hparent : (b.expr e).map (·.parent) = (a.expr e).map (·.parent) :=
    h.read_eq _ (fun _ => rfl) fun _ _ => rfl
  cases ha : a.expr e <;> cases hb : b.expr e <;> rw [ha, hb] at hparent
  case error.error =>
    cases hparent
    rw [parentExpr, parentExpr, ha, hb]
  case ok.ok node node' =>
    have hsame : node'.parent = node.parent := Except.ok.inj hparent
    rw [parentExpr_of_expr ha, parentExpr_of_expr hb, hsame]
  all_goals cases hparent

theorem isCallee_eq : b.isCallee = a.isCallee := by
  funext e
  rw [isCallee, isCallee, h.parentExpr_eq]
  cases a.parentExpr e with
  | error f => rfl
  | ok parent =>
    cases parent with
    | none => rfl
    | some p =>
      exact h.read_eq (fun node => node.kind.callee? == some e) (fun _ => rfl) fun _ _ => rfl

/-- Parentheses are not applied to anything, unlike a link; this makes a difference for the name
only. -/
theorem isReceiver_eq (he : e ≠ base) : b.isReceiver e = a.isReceiver e := by
  rw [isReceiver, isReceiver, h.parentExpr_eq]
  cases a.parentExpr e with
  | error f => rfl
  | ok parent =>
    cases parent with
    | none => rfl
    | some p =>
      refine h.read_eq (fun node => node.kind.receiver? == some e) (fun _ => rfl) fun _ _ => ?_
      simp [Expr.receiver?, Ne.symm he]

theorem spineHasLink_eq (hbelow : ¬ a.Below (.expr e) (.expr base)) (bound : ℕ) :
    b.spineHasLink bound e = a.spineHasLink bound e := by
  induction bound generalizing e with
  | zero => rfl
  | succ bound ih =>
    cases hnode : a.expr e with
    | error f =>
      rw [spineHasLink, spineHasLink, h.expr_eq hbelow, hnode]
      rfl
    | ok node =>
      rw [spineHasLink_succ hnode, spineHasLink_succ ((h.expr_eq hbelow).trans hnode)]
      split
      · rfl
      · split
        · rename_i z hz
          exact ih fun hz' => hbelow
            (.of_child ((child_expr_iff hnode).2 ⟨z, Expr.mem_slots_of_receiver? hz, rfl⟩) hz')
        · rfl

theorem mark_eq (hbelow : ¬ a.Below (.expr e) (.expr base)) : b.mark e = a.mark e := by
  rw [mark, mark, closesChain, closesChain, h.isCallee_eq, h.size, h.spineHasLink_eq hbelow,
    h.isReceiver_eq (by rintro rfl; exact hbelow (.refl _))]

/-- What does not contain the name is the same in both arenas. -/
theorem term_eq (wf : a.WellFormed) (he : a.contains (.expr e))
    (hbelow : ¬ a.Below (.expr e) (.expr base)) : b.term e = a.term e := by
  induction e using wf.expr_induct with
  | node e ih =>
    obtain ⟨node, hnode⟩ := exists_expr he
    rw [wf.term_eq hnode, (h.wellFormed wf).term_eq ((h.expr_eq hbelow).trans hnode),
      h.mark_eq hbelow]
    congr 1
    refine Expr.map_congr fun z hz => ?_
    have hchild : a.Child (.expr e) (.expr z) := (child_expr_iff hnode).2 ⟨z, hz, rfl⟩
    exact ih z (.single hchild) (wf.contains_child _ _ hchild)
      fun hz' => hbelow (.of_child hchild hz')

/-! ## Operators on the link or the parentheses -/

/-- The name is no operator. -/
theorem ne_base (hops : a.Builds link e ops) : e ≠ base := by
  rintro rfl
  obtain ⟨_, hbase, -⟩ := h.expr_base
  obtain ⟨_, hlink, -⟩ := h.expr_link
  cases hops with
  | link => cases hbase.symm.trans hlink
  | step hnode hreceiver _ =>
    cases hbase.symm.trans hnode
    cases hreceiver

/-- An operator that is applied to the link is the same in both arenas. -/
theorem expr_step (hnode : a.expr e = .ok node) (hreceiver : node.kind.receiver? = some p)
    (hops : a.Builds link p ops) : b.expr e = .ok node := by
  rw [h.expr_of_ne e (h.ne_base (.step hnode hreceiver hops)), hnode]
  rintro rfl
  obtain ⟨_, hlink, -⟩ := h.expr_link
  cases hlink.symm.trans hnode
  cases hreceiver
  exact h.ne_base hops rfl

/-- What an operator is applied to closes no chain, in neither arena. -/
theorem mark_receiver (wf : a.WellFormed) (hnode : a.expr e = .ok node)
    (hreceiver : node.kind.receiver? = some p) (hops : a.Builds link p ops) :
    b.mark p = a.mark p ∧ (a.mark p).closesChain = false := by
  have hold := mark_of_isReceiver (wf.isReceiver_of_receiver? hnode hreceiver)
  have hnew := mark_of_isReceiver
    ((h.wellFormed wf).isReceiver_of_receiver? (h.expr_step hnode hreceiver hops) hreceiver)
  rw [hold, hnew, h.isCallee_eq]
  exact ⟨rfl, rfl⟩

/-- An operator on the link that stands in a statement closes the chain. -/
theorem closesChain_outermost (wf : a.WellFormed) (hops : a.Builds link e ops) {s : StmtId}
    (hs : a.Child (.stmt s) (.expr e)) : (a.mark e).closesChain = true := by
  obtain ⟨_, hlink, -⟩ := h.expr_link
  have hcloses : a.closesChain e = .ok true := by
    rw [closesChain, (wf.not_applied_of_stmt hs).2]
    exact hops.spineHasLink wf hlink
  rw [mark, hcloses]
  rfl

/-- What an operator is applied to besides does not contain the name. -/
theorem not_below_of_slot (wf : a.WellFormed) (hnode : a.expr e = .ok node)
    (hreceiver : node.kind.receiver? = some p) (hops : a.Builds link p ops) {z : ExprId}
    (hz : z ∈ node.kind.slots) (hne : z ≠ p) : ¬ a.Below (.expr z) (.expr base) := by
  intro hbelow
  have hchild : ∀ z ∈ node.kind.slots, a.Child (.expr e) (.expr z) := fun z hz =>
    (child_expr_iff hnode).2 ⟨z, hz, rfl⟩
  have heq := wf.eq_of_below (hchild z hz) (hchild p (Expr.mem_slots_of_receiver? hreceiver)) hbelow
    (hops.below_link.tail h.child_base)
  exact hne (NodeId.expr.inj heq)

end Unlinks
end ExprTyping.Arena
