import ExprTyping.Proofs.Arena.Check
import ExprTyping.Proofs.Resolution.Node

/-!
# Coalescing

However `??` and parentheses group the same leaves, the type comes out the same
(`Resolver.resolve_coalescing`). The types of the leaves decide it (`Rule.CoalescesTo`): a failed
leaf makes the expression fail. Without one, a leaf that is unresolved, or that differs from another
one in more than optionality, leaves the expression unresolved. Otherwise the expression has the
type of the last leaf.

The induction is on the grouping. What a group came to stands for the group when it is coalesced
with another one (`Rule.CoalescesTo.append`): it is unresolved exactly if the group has a leaf that
does not match the others, and else it is the last leaf of the group, which all others match.
-/

namespace ExprTyping

/-! ## The rule -/

namespace Rule

variable {types types' : List (Option Ty)} {type type' : Option Ty}

/-- The type of two operands coalesced, one of which may have failed. -/
def coalescing (lhs rhs : Option Ty) : Option Ty :=
  if lhs = some .errorType ∨ rhs = some .errorType then some .errorType else coalesced lhs rhs

/-- Some operand is unresolved, or two differ once all optionality is removed. -/
def Mismatched (types : List (Option Ty)) : Prop :=
  none ∈ types ∨ ∃ s t, some s ∈ types ∧ some t ∈ types ∧ s.deepUnwrapped ≠ t.deepUnwrapped

theorem Mismatched.mono (h : Mismatched types) (hsub : types ⊆ types') : Mismatched types' := by
  rcases h with hnone | ⟨s, t, hs, ht, hdiffer⟩
  · exact .inl (hsub hnone)
  · exact .inr ⟨s, t, hsub hs, hsub ht, hdiffer⟩

/-- What is coalesced has the type of the right operand. -/
theorem eq_of_coalesced {t : Ty} (h : coalesced type type' = some t) : type' = some t := by
  unfold coalesced at h
  split at h
  · split_ifs at h
    exact h
  · cases h

/-- The type that operands of these types come to when they are coalesced. A single operand keeps
its type, also if it is unresolved. -/
structure CoalescesTo (types : List (Option Ty)) (type : Option Ty) : Prop where
  failed : some .errorType ∈ types → type = some .errorType
  mismatched : some .errorType ∉ types → 2 ≤ types.length → Mismatched types → type = none
  matched : some .errorType ∉ types → ¬ (2 ≤ types.length ∧ Mismatched types) →
    types.getLast? = some type

theorem CoalescesTo.single (type : Option Ty) : CoalescesTo [type] type where
  failed h := (List.mem_singleton.1 h).symm
  mismatched _ h := absurd h (by simp)
  matched _ _ := rfl

namespace CoalescesTo

theorem unique (h : CoalescesTo types type) (h' : CoalescesTo types type') : type = type' := by
  by_cases hfailed : some .errorType ∈ types
  · rw [h.failed hfailed, h'.failed hfailed]
  · by_cases hmismatched : 2 ≤ types.length ∧ Mismatched types
    · rw [h.mismatched hfailed hmismatched.1 hmismatched.2,
        h'.mismatched hfailed hmismatched.1 hmismatched.2]
    · exact Option.some.inj ((h.matched hfailed hmismatched).symm.trans (h'.matched hfailed hmismatched))

/-- Without a failed operand, what comes out is unresolved exactly if the operands do not match. -/
theorem eq_none_iff (h : CoalescesTo types type) (hne : types ≠ [])
    (hfailed : some .errorType ∉ types) : type = none ↔ Mismatched types := by
  constructor
  · rintro rfl
    by_contra hmatched
    have hlast := h.matched hfailed fun hm => hmatched hm.2
    exact hmatched (.inl (List.mem_of_getLast? hlast))
  · intro hmismatched
    by_cases hlength : 2 ≤ types.length
    · exact h.mismatched hfailed hlength hmismatched
    · obtain ⟨t, rfl⟩ : ∃ t, types = [t] := by
        refine List.length_eq_one_iff.1 ?_
        have := List.length_pos_iff.2 hne
        omega
      obtain rfl : t = type := Option.some.inj (h.matched hfailed fun hm => hlength hm.1)
      rcases hmismatched with hnone | ⟨s, u, hs, hu, hdiffer⟩
      · exact (List.mem_singleton.1 hnone).symm
      · cases (List.mem_singleton.1 hs).trans (List.mem_singleton.1 hu).symm
        exact absurd rfl hdiffer

/-- Without a failed operand, a type that comes out is that of the last operand. -/
theorem getLast?_eq {t : Ty} (h : CoalescesTo types (some t)) (hfailed : some .errorType ∉ types) :
    types.getLast? = some (some t) := by
  refine h.matched hfailed fun ⟨hlength, hmismatched⟩ => ?_
  cases h.mismatched hfailed hlength hmismatched

/-- Without a failed operand, the operands match the type that comes out. -/
theorem matches_type {t : Ty} (h : CoalescesTo types (some t)) (hfailed : some .errorType ∉ types) :
    none ∉ types ∧ ∀ s, some s ∈ types → s.deepUnwrapped = t.deepUnwrapped := by
  have hlast := List.mem_of_getLast? (h.getLast?_eq hfailed)
  have hmatched : ¬ Mismatched types := fun hmismatched => by
    cases (h.eq_none_iff (List.ne_nil_of_mem hlast) hfailed).2 hmismatched
  refine ⟨fun hnone => hmatched (.inl hnone), fun s hs => ?_⟩
  by_contra hdiffer
  exact hmatched (.inr ⟨s, t, hs, hlast, hdiffer⟩)

/-- Two groups without a failed operand do not match exactly if what they come to does not
coalesce. -/
theorem mismatched_append_iff (h : CoalescesTo types type) (h' : CoalescesTo types' type')
    (hne : types ≠ []) (hne' : types' ≠ []) (hfailed : some .errorType ∉ types)
    (hfailed' : some .errorType ∉ types') :
    coalesced type type' = none ↔ Mismatched (types ++ types') := by
  cases type with
  | none =>
    have hmismatched := (h.eq_none_iff hne hfailed).1 rfl
    exact iff_of_true rfl (hmismatched.mono (List.subset_append_left _ _))
  | some s =>
    cases type' with
    | none =>
      have hmismatched := (h'.eq_none_iff hne' hfailed').1 rfl
      exact iff_of_true rfl (hmismatched.mono (List.subset_append_right _ _))
    | some t =>
      obtain ⟨hnone, hs⟩ := h.matches_type hfailed
      obtain ⟨hnone', ht⟩ := h'.matches_type hfailed'
      have hcoalesced : coalesced (some s) (some t) = none ↔ s.deepUnwrapped ≠ t.deepUnwrapped := by
        simp [coalesced]
      rw [hcoalesced]
      constructor
      · intro hdiffer
        have hlast := List.mem_of_getLast? (h.getLast?_eq hfailed)
        have hlast' := List.mem_of_getLast? (h'.getLast?_eq hfailed')
        exact .inr ⟨s, t, List.mem_append_left _ hlast, List.mem_append_right _ hlast', hdiffer⟩
      · intro hmismatched hsame
        have hall : ∀ u, some u ∈ types ++ types' → u.deepUnwrapped = t.deepUnwrapped := by
          intro u hu
          rcases List.mem_append.1 hu with hu | hu
          · exact (hs u hu).trans hsame
          · exact ht u hu
        rcases hmismatched with hmem | ⟨u, v, hu, hv, hdiffer⟩
        · exact (List.mem_append.1 hmem).elim hnone hnone'
        · exact hdiffer ((hall u hu).trans (hall v hv).symm)

/-- What two groups come to stands for them when they are coalesced. -/
theorem append (h : CoalescesTo types type) (h' : CoalescesTo types' type') (hne : types ≠ [])
    (hne' : types' ≠ []) : CoalescesTo (types ++ types') (coalescing type type') := by
  have hlength : 2 ≤ (types ++ types').length := by
    have := List.length_pos_iff.2 hne
    have := List.length_pos_iff.2 hne'
    rw [List.length_append]
    omega
  by_cases hmem : some .errorType ∈ types ++ types'
  · have htype : type = some .errorType ∨ type' = some .errorType :=
      (List.mem_append.1 hmem).imp h.failed h'.failed
    rw [coalescing, if_pos htype]
    exact ⟨fun _ => rfl, fun hfailed => absurd hmem hfailed, fun hfailed => absurd hmem hfailed⟩
  · obtain ⟨hfailed, hfailed'⟩ := not_or.1 (mt List.mem_append.2 hmem)
    have htype : ¬ (type = some .errorType ∨ type' = some .errorType) := by
      rintro (rfl | rfl)
      · exact hfailed (List.mem_of_getLast? (h.getLast?_eq hfailed))
      · exact hfailed' (List.mem_of_getLast? (h'.getLast?_eq hfailed'))
    have hiff := h.mismatched_append_iff h' hne hne' hfailed hfailed'
    rw [coalescing, if_neg htype]
    refine ⟨fun h => absurd h hmem, fun _ _ => hiff.2, fun _ hmatched => ?_⟩
    cases hcoalesced : coalesced type type' with
    | none => exact absurd ⟨hlength, hiff.1 hcoalesced⟩ hmatched
    | some t =>
      obtain rfl := eq_of_coalesced hcoalesced
      rw [List.getLast?_append_of_ne_nil _ hne']
      exact h'.getLast?_eq hfailed'

end CoalescesTo

/-- Grouping does not matter. -/
theorem coalescing_assoc (a b c : Option Ty) :
    coalescing (coalescing a b) c = coalescing a (coalescing b c) :=
  have hleft : CoalescesTo [a, b, c] (coalescing (coalescing a b) c) :=
    ((CoalescesTo.single a).append (.single b) (by simp) (by simp)).append (.single c) (by simp)
      (by simp)
  have hright : CoalescesTo [a, b, c] (coalescing a (coalescing b c)) :=
    (CoalescesTo.single a).append ((CoalescesTo.single b).append (.single c) (by simp) (by simp))
      (by simp) (by simp)
  hleft.unique hright

end Rule

/-! ## Groupings -/

/-- The expression is built from the leaves, in this order, by coalescing and parentheses. -/
inductive Arena.Coalesces (a : Arena) : ExprId → List ExprId → Prop
  | leaf (e : ExprId) : Coalesces a e [e]
  | parens {e x : ExprId} {parent : Option NodeId} {leaves : List ExprId}
      (node : a.expr e = .ok ⟨.parens x, parent⟩) (inner : Coalesces a x leaves) :
      Coalesces a e leaves
  | coalesce {e l r : ExprId} {parent : Option NodeId} {left right : List ExprId}
      (node : a.expr e = .ok ⟨.binary l .nullCoalesce r, parent⟩) (lhs : Coalesces a l left)
      (rhs : Coalesces a r right) : Coalesces a e (left ++ right)

theorem Arena.Coalesces.ne_nil {a : Arena} {e : ExprId} {leaves : List ExprId}
    (h : a.Coalesces e leaves) : leaves ≠ [] := by
  induction h with
  | leaf e => exact List.cons_ne_nil e []
  | parens _ _ ih => exact ih
  | coalesce _ _ _ ih _ => exact List.append_ne_nil_of_left_ne_nil ih _

namespace Resolver

variable {r r' : Resolver} {t t' : Tree} {n : NodeId} {e x l y : ExprId} {leaves : List ExprId}
  {parent : Option NodeId}

theorem TypedAt.type_parens (h : r.TypedAt t e) (wf : t.arena.WellFormed)
    (hnode : t.arena.expr e = .ok ⟨.parens x, parent⟩) : t.notes.type e = t.notes.type x := by
  obtain ⟨env, hown, hoperand⟩ := h.exists_verdict wf hnode rfl rfl
  rw [Notes.type, Notes.type, hown, hoperand x (List.mem_singleton.2 rfl)]
  rfl

theorem TypedAt.type_coalesce (h : r.TypedAt t e) (wf : t.arena.WellFormed)
    (hnode : t.arena.expr e = .ok ⟨.binary l .nullCoalesce y, parent⟩) :
    t.notes.type e = Rule.coalescing (t.notes.type l) (t.notes.type y) := by
  obtain ⟨env, hown, hoperand⟩ := h.exists_verdict wf hnode rfl rfl
  rw [Notes.type, Notes.type, Notes.type, hown, hoperand l (by simp [Expr.slots]),
    hoperand y (by simp [Expr.slots])]
  simp only [Expr.map, Lexicon.verdict, unlessFailed, Rule.coalescing, List.any_cons, List.any_nil,
    Bool.or_false, Bool.or_eq_true, Operand.isFailed, Term.operand, beq_iff_eq, Verdict.type]
  split_ifs <;> rfl

/-- The types of the leaves decide the type of a grouping all of whose parts are typed. -/
theorem coalescesTo (wf : t.arena.WellFormed)
    (typed : ∀ x, t.arena.Below (.expr e) (.expr x) → r.TypedAt t x)
    (h : t.arena.Coalesces e leaves) :
    Rule.CoalescesTo (leaves.map t.notes.type) (t.notes.type e) := by
  induction h with
  | leaf e => exact .single _
  | @parens e x parent leaves node inner ih =>
    have hchild : t.arena.Child (.expr e) (.expr x) :=
      (Arena.child_expr_iff node).2 ⟨x, List.mem_singleton.2 rfl, rfl⟩
    rw [(typed e (.refl _)).type_parens wf node]
    exact ih fun y hy => typed y (.of_child hchild hy)
  | @coalesce e l y parent left right node lhs rhs ihl ihr =>
    have hchild : ∀ x ∈ [l, y], t.arena.Child (.expr e) (.expr x) := fun x hx =>
      (Arena.child_expr_iff node).2 ⟨x, hx, rfl⟩
    rw [(typed e (.refl _)).type_coalesce wf node, List.map_append]
    have hleft := ihl fun x hx => typed x (.of_child (hchild l (by simp)) hx)
    have hright := ihr fun x hx => typed x (.of_child (hchild y (by simp)) hx)
    exact hleft.append hright (by simpa using lhs.ne_nil) (by simpa using rhs.ne_nil)

/-- In default mode, the types of the leaves decide the type of every grouping. -/
theorem exists_coalescesTo (hmode : r.skipsResolved = false) (wf : t.arena.WellFormed)
    (hn : t.contains n) :
    ∃ t' r', r.resolve t n = .ok (t', r') ∧
      ∀ e leaves, t.arena.Below n (.expr e) → t.arena.Coalesces e leaves →
        Rule.CoalescesTo (leaves.map t'.notes.type) (t'.notes.type e) := by
  obtain ⟨t', r', hrun, harena, htyped⟩ := exists_typedAt hmode wf hn
  refine ⟨t', r', hrun, fun e leaves he h => ?_⟩
  rw [← harena] at wf h
  exact coalescesTo wf (fun x hx => htyped x (he.trans (harena ▸ hx))) h

/-- In default mode, an expression that `??` and parentheses build from some leaves has the type
that the leaves come to. So all groupings of leaves with the same types have the same type, whatever
the trees and the resolvers. -/
theorem resolve_coalescing (hmode : r.skipsResolved = false) (wf : t.arena.WellFormed)
    (hn : t.contains n) :
    ∃ t' r', r.resolve t n = .ok (t', r') ∧
      ∀ e leaves, t.arena.Below n (.expr e) → t.arena.Coalesces e leaves →
        Rule.CoalescesTo (leaves.map t'.notes.type) (t'.notes.type e) ∧
        ∀ (s s' : Resolver) (u u' : Tree) (m : NodeId) (e' : ExprId) (leaves' : List ExprId),
          s.skipsResolved = false → u.arena.WellFormed → u.contains m →
          s.resolve u m = .ok (u', s') → u.arena.Below m (.expr e') →
          u.arena.Coalesces e' leaves' →
          leaves'.map u'.notes.type = leaves.map t'.notes.type →
          u'.notes.type e' = t'.notes.type e := by
  obtain ⟨t', r', hrun, hgroupings⟩ := exists_coalescesTo hmode wf hn
  refine ⟨t', r', hrun, fun e leaves he h => ⟨hgroupings e leaves he h, ?_⟩⟩
  intro s s' u u' m e' leaves' hmode' wf' hm hrun' he' h' hsame
  obtain ⟨u'', s'', hrun'', hgroupings'⟩ := exists_coalescesTo hmode' wf' hm
  cases hrun'.symm.trans hrun''
  exact (hsame ▸ hgroupings' e' leaves' he' h').unique (hgroupings e leaves he h)

end Resolver

/-- `(a ?? b) ?? c` -/
def groupedLeft : Tree where
  arena := {
    exprs := #[
      ⟨.identifier "a", some (.expr ⟨2⟩)⟩,
      ⟨.identifier "b", some (.expr ⟨2⟩)⟩,
      ⟨.binary ⟨0⟩ .nullCoalesce ⟨1⟩, some (.expr ⟨3⟩)⟩,
      ⟨.parens ⟨2⟩, some (.expr ⟨5⟩)⟩,
      ⟨.identifier "c", some (.expr ⟨5⟩)⟩,
      ⟨.binary ⟨3⟩ .nullCoalesce ⟨4⟩, some (.stmt ⟨0⟩)⟩]
    stmts := #[⟨.expressions [⟨5⟩], none, false⟩] }

/-- `a ?? (b ?? c)` -/
def groupedRight : Tree where
  arena := {
    exprs := #[
      ⟨.identifier "a", some (.expr ⟨5⟩)⟩,
      ⟨.identifier "b", some (.expr ⟨3⟩)⟩,
      ⟨.identifier "c", some (.expr ⟨3⟩)⟩,
      ⟨.binary ⟨1⟩ .nullCoalesce ⟨2⟩, some (.expr ⟨4⟩)⟩,
      ⟨.parens ⟨3⟩, some (.expr ⟨5⟩)⟩,
      ⟨.binary ⟨0⟩ .nullCoalesce ⟨4⟩, some (.stmt ⟨0⟩)⟩]
    stmts := #[⟨.expressions [⟨5⟩], none, false⟩] }

/-- The types of `a`, `b` and `c`: integers that are optional twice, once and not at all. -/
def operandTypes : List (Option Ty) :=
  [some (.optional (.optional .int)), some (.optional .int), some .int]

/-- The names have these types. -/
def coalescer : Resolver where
  catalog := .empty
  intrinsics := .globals
    [⟨"a", .optional (.optional .int)⟩, ⟨"b", .optional .int⟩, ⟨"c", .int⟩]

namespace Resolver

/-- The operands match, so either grouping has the type of `c`. -/
theorem resolve_coalescing_integers :
    ∃ t' r' u' s', coalescer.resolve groupedLeft (.stmt ⟨0⟩) = .ok (t', r') ∧
      coalescer.resolve groupedRight (.stmt ⟨0⟩) = .ok (u', s') ∧
      t'.notes.type ⟨5⟩ = some .int ∧ u'.notes.type ⟨5⟩ = t'.notes.type ⟨5⟩ := by
  have wf : groupedLeft.arena.WellFormed := Arena.wellFormed_of_check (by decide)
  have wf' : groupedRight.arena.WellFormed := Arena.wellFormed_of_check (by decide)
  have hroot : groupedLeft.contains (.stmt ⟨0⟩) := by rfl
  have hroot' : groupedRight.contains (.stmt ⟨0⟩) := by rfl
  have hgrouping : groupedLeft.arena.Coalesces ⟨5⟩ ([⟨0⟩] ++ [⟨1⟩] ++ [⟨4⟩]) :=
    .coalesce rfl (.parens rfl (.coalesce rfl (.leaf _) (.leaf _))) (.leaf _)
  have hgrouping' : groupedRight.arena.Coalesces ⟨5⟩ ([⟨0⟩] ++ ([⟨1⟩] ++ [⟨2⟩])) :=
    .coalesce rfl (.leaf _) (.parens rfl (.coalesce rfl (.leaf _) (.leaf _)))
  have hbelow := (wf.mem_nodes (n := .expr ⟨5⟩) hroot rfl).1 (by decide)
  have hbelow' := (wf'.mem_nodes (n := .expr ⟨5⟩) hroot' rfl).1 (by decide)
  obtain ⟨t', r', hrun, h⟩ := resolve_coalescing (r := coalescer) rfl wf hroot
  obtain ⟨u', s', hrun', -⟩ := resolve_coalescing (r := coalescer) rfl wf' hroot'
  obtain ⟨hleaves, hregrouped⟩ := h _ _ hbelow hgrouping
  have hleft : (coalescer.resolve groupedLeft (.stmt ⟨0⟩)).toOption.map
      (fun left => List.map left.1.notes.type ([⟨0⟩] ++ [⟨1⟩] ++ [⟨4⟩])) = some operandTypes := by
    decide +kernel
  have hright : (coalescer.resolve groupedRight (.stmt ⟨0⟩)).toOption.map
      (fun left => List.map left.1.notes.type ([⟨0⟩] ++ ([⟨1⟩] ++ [⟨2⟩]))) = some operandTypes := by
    decide +kernel
  rw [hrun] at hleft
  rw [hrun'] at hright
  have htypes : List.map t'.notes.type ([⟨0⟩] ++ [⟨1⟩] ++ [⟨4⟩]) = operandTypes :=
    Option.some.inj hleft
  have htypes' : List.map u'.notes.type ([⟨0⟩] ++ ([⟨1⟩] ++ [⟨2⟩])) = operandTypes :=
    Option.some.inj hright
  refine ⟨t', r', u', s', hrun, hrun', ?_, ?_⟩
  · have hmatched : ¬ Rule.Mismatched operandTypes := by
      simp [Rule.Mismatched, operandTypes, Ty.deepUnwrapped]
    rw [htypes] at hleaves
    exact (Option.some.inj (hleaves.matched (by decide) fun h => hmatched h.2)).symm
  · exact hregrouped _ _ _ _ _ _ _ rfl wf' hroot' hrun' hbelow' hgrouping'
      (htypes'.trans htypes.symm)

end Resolver
end ExprTyping
