import ExprTyping.Proofs.Arena.Check
import ExprTyping.Proofs.Lexical.Cascade
import ExprTyping.Proofs.Resolution.Run

/-!
# Reports and failed expressions

What a full run reports mirrors what it leaves in the tree (`Resolver.resolveTypes_mirrors`): the
expressions that are reported are distinct and come in the order of the visit, each has failed, and
none of their operands has, except perhaps a member access that is called. A loop is reported at
most once for what it iterates over and at most once for its pattern.
-/

namespace ExprTyping

namespace Resolver

/-- The reports of a run from a root mirror the tree that it leaves. -/
structure Mirrors (t t' : Tree) (root : StmtId) (reported : List Diagnostic) : Prop where
  /-- The expressions that are reported are distinct. -/
  distinct : ((reported.filter (·.node.isExpr)).map (·.node)).Nodup
  /-- They come in the order of the visit: operands from left to right, then the expression;
  statements in source order. -/
  ordered : ((reported.filter (·.node.isExpr)).map (·.node)).Sublist
    (t.arena.program root).visitOrder
  /-- They are below the root. -/
  below : ∀ d ∈ reported, t.arena.Below (.stmt root) d.node
  /-- They have failed. -/
  failed : ∀ d ∈ reported, ∀ e, d.node = .expr e → t'.notes.type e = some .errorType
  /-- None of their operands has, except perhaps a member access that is called. -/
  origin : ∀ d ∈ reported, ∀ e node x, d.node = .expr e → t.arena.expr e = .ok node →
    x ∈ node.kind.slots → t'.notes.type x = some .errorType → node.kind.callee? = some x ∧
      ∃ callee, t.arena.expr x = .ok callee ∧ callee.kind.isMember
  /-- A loop is reported for what it iterates over only if this has a type and has not failed. -/
  notIterable : ∀ d ∈ reported, ∀ type, d.issue = .notIterable type →
    ∃ loop node pattern x body, d.node = .stmt loop ∧ t.arena.stmt loop = .ok node ∧
      node.kind = .forIn pattern x body ∧ t'.notes.type x = some type ∧ type ≠ .errorType
  /-- It is so at most once. -/
  notIterable_once : ∀ loop,
    reported.countP (fun d => decide (d.node = .stmt loop) && d.issue.isNotIterable) ≤ 1
  /-- It is warned of a loop's pattern at most once. -/
  pattern_once : ∀ loop,
    reported.countP (fun d => decide (d.node = .stmt loop) && d.issue.isWarning) ≤ 1

variable {r r' : Resolver} {t t' : Tree} {root : StmtId}

/-- What the walk reports mirrors the notes that the run leaves. -/
theorem Leaves.mirrors (wf : t.arena.WellFormed) {c : Leg} (hc : t.arena.Holds c.program)
    (hprogram : c.program = t.arena.program root) {env : Env}
    (h : Leaves r r' t t' root (r.lexicon.take t.arena.opens c) env) :
    Mirrors t t' root (r.lexicon.take t.arena.opens c).diagnostics := by
  have hid : c.program.id = root := by rw [hprogram, Arena.program_id]
  have hordered : (((r.lexicon.take t.arena.opens c).diagnostics.filter (·.node.isExpr)).map
      (·.node)).Sublist c.program.visitOrder := Lexicon.expr_diagnostics_sublist wf hc
  constructor
  case distinct => exact (hc.nodup_visitOrder wf).sublist hordered
  case ordered => rwa [← hprogram]
  case below =>
    intro d hd
    rw [← hid]
    rcases Lexicon.exists_reporter wf hc hd with
      ⟨K, env', -, hnode, -, hsub⟩ | ⟨c', hlead, i, -, rfl⟩
    · rw [hnode]
      exact Lexicon.below_of_mem_take hc (hsub Lexicon.own_mem_findings)
    · exact (hlead.holds hc).2
  case failed =>
    intro d hd e he
    rcases Lexicon.exists_reporter wf hc hd with
      ⟨K, env', -, hnode, hissue, hsub⟩ | ⟨c', -, i, -, rfl⟩
    · obtain rfl := NodeId.expr.inj (he.symm.trans hnode)
      rw [Notes.type, h.note _ (hsub Lexicon.own_mem_findings),
        (Lexicon.failed_of_reported hissue).1]
      rfl
    · cases he
  case origin =>
    intro d hd e node x he hnode hx hfailed
    rcases Lexicon.exists_reporter wf hc hd with
      ⟨K, env', hK, hnode', hissue, hsub⟩ | ⟨c', -, i, -, rfl⟩
    · obtain rfl := NodeId.expr.inj (he.symm.trans hnode')
      obtain ⟨parent, hnode''⟩ := hK.exists_node
      cases hnode.symm.trans hnode''
      rw [Expr.slots_map] at hx
      obtain ⟨X, hX, rfl⟩ := List.mem_map.1 hx
      rw [Notes.type, h.note _ (hsub (Lexicon.mem_findings_of_operand hX Lexicon.own_mem_findings))]
        at hfailed
      obtain ⟨⟨arguments, hk⟩, hmember⟩ :=
        Lexicon.operand_failed_of_reported wf hK hissue hX hfailed
      obtain ⟨parent', hcallee⟩ := (hK.operand hX).exists_node
      refine ⟨by rw [hk]; rfl, _, hcallee, ?_⟩
      rwa [Expr.isMember_map]
    · cases he
  case notIterable =>
    intro d hd type hissue
    rcases Lexicon.exists_reporter wf hc hd with
      ⟨K, env', -, -, hissue', -⟩ | ⟨c', hlead, i, hi, rfl⟩
    · have hloop := (Lexicon.failed_of_reported hissue').2
      rw [hissue] at hloop
      cases hloop
    · obtain rfl : i = .notIterable type := hissue
      obtain ⟨pattern, x, body, hshape, hne, f, hf, hfx, htype⟩ :=
        Lexicon.iterated_of_notIterable hi
      obtain ⟨parent, ownsScope, hnode⟩ := (hlead.holds hc).1.exists_node
      rw [hshape] at hnode
      refine ⟨c'.program.id, _, pattern, x.id, body.id, rfl, hnode, rfl, ?_, hne⟩
      rw [Notes.type, ← hfx, h.note f (hlead.findings_subset hf), htype]
  case notIterable_once =>
    exact fun loop => Lexicon.countP_diagnostics_le wf hc Lexicon.notIterable_filter_le (.stmt loop)
  case pattern_once =>
    exact fun loop => Lexicon.countP_diagnostics_le wf hc Lexicon.isWarning_filter_le (.stmt loop)

/-- What a full run reports mirrors what it leaves in the tree. -/
theorem resolveTypes_mirrors {r : Resolver} (hmode : r.skipsResolved = false) {t : Tree}
    (wf : t.arena.WellFormed) {root : StmtId} (hroot : t.contains (.stmt root)) :
    ∃ t' r' reported, r.resolveTypes t root = .ok (t', r') ∧
      r'.diagnostics = r.diagnostics ++ reported ∧ Mirrors t t' root reported := by
  obtain ⟨t', r', hrun, hleaves⟩ := run_leaves wf hroot (restorable_of_not_skips hmode)
  refine ⟨t', r', _, hrun, hleaves.diagnostics hmode, ?_⟩
  exact Leaves.mirrors wf
    (c := ⟨t.arena.program root, {}, t.arena.framesAbove t.notes (.stmt root)⟩)
    (wf.holds_program hroot) rfl hleaves

/-- `for (a, b) in 1 { missing.run(lost) }` -/
def mirrored : Tree where
  arena := {
    exprs := #[
      ⟨.constant (.int 1), some (.stmt ⟨2⟩)⟩,
      ⟨.identifier "missing", some (.expr ⟨2⟩)⟩,
      ⟨.member ⟨1⟩ "run", some (.expr ⟨4⟩)⟩,
      ⟨.identifier "lost", some (.expr ⟨4⟩)⟩,
      ⟨.call ⟨2⟩ [⟨none, ⟨3⟩⟩], some (.stmt ⟨0⟩)⟩]
    stmts := #[
      ⟨.expressions [⟨4⟩], some ⟨1⟩, false⟩,
      ⟨.block [⟨0⟩], some ⟨2⟩, true⟩,
      ⟨.forIn (.tuple [.identifier "a", .identifier "b"]) ⟨0⟩ ⟨1⟩, none, true⟩] }

set_option maxRecDepth 1000 in
/-- The loop is reported twice, for what it iterates over and for its pattern. The two unknown names
are reported, and not the call above them. -/
theorem resolveTypes_mirrored :
    mirrored.arena.WellFormed ∧ mirrored.contains (.stmt ⟨2⟩) ∧
      ∃ t' r' reported, resolveTypes { catalog := {} } mirrored ⟨2⟩ = .ok (t', r') ∧
        reported.map (·.node) = [.stmt ⟨2⟩, .stmt ⟨2⟩, .expr ⟨1⟩, .expr ⟨3⟩] ∧
        t'.notes.type ⟨4⟩ = some .errorType ∧ Mirrors mirrored t' ⟨2⟩ reported := by
  have wf : mirrored.arena.WellFormed := Arena.wellFormed_of_check (by decide)
  have hroot : mirrored.contains (.stmt ⟨2⟩) := by rfl
  obtain ⟨t', r', reported, hrun, hreported, hmirrors⟩ :=
    resolveTypes_mirrors (r := { catalog := {} }) rfl wf hroot
  have hrun' := hrun
  cases hrun'
  refine ⟨wf, hroot, _, _, reported, hrun, ?_, rfl, hmirrors⟩
  have hreported : _ = reported := hreported
  rw [← hreported]
  rfl

end Resolver
end ExprTyping
