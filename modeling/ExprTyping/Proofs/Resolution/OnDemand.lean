import ExprTyping.Proofs.Resolution.Idempotence
import ExprTyping.Proofs.Resolution.Incremental

/-!
# Resolving a single expression on demand

`Resolver.resolveType` visits an expression by itself. It looks names up in the scopes as they are
now, and no call above the expression settles it. So after a full run it need not find again what
the run noted: in `{ x; var x: int }` the name was unknown when the run came to it and is known
afterwards, and the type of a called method comes from its call
(`Resolver.resolveType_not_consistent`).

`Resolver.resolveType_consistent` says when it does find the same.

* Every name below the expression is bound to what it means in the scopes that the run left
  (`Resolver.NamesHold`).
* The rule for the expression, applied to the notes on its operands, gives the note on it
  (`Resolver.RuleHolds`). This follows from the first condition, unless the expression is a called
  member access.
-/

namespace ExprTyping

/-! ## Names below a term -/

namespace Arena

variable {a : Arena} {notes : Notes} {e x : ExprId}

/-- No names are declared inside an expression. -/
theorem WellFormed.framesAbove_of_below (wf : a.WellFormed)
    (h : a.Below (.expr e) (.expr x)) :
    a.framesAbove notes (.expr x) = a.framesAbove notes (.expr e) := by
  suffices ∀ n, a.Below (.expr e) n → a.framesAbove notes n = a.framesAbove notes (.expr e) from
    this _ h
  intro n hn
  induction hn with
  | refl => rfl
  | tail hbelow hchild ih =>
    obtain ⟨y, rfl⟩ := Below.of_expr hbelow
    rw [wf.framesAbove_child hchild, ← ih, frames, owners_expr, framesAbove]

end Arena

namespace Lexicon

variable {L : Lexicon} {env : Env} {a : Arena} {T : Term Mark} {note : ExprNote} {e : ExprId}
  {node : ExprNode} {name : String}

theorem binding_judgeName (L : Lexicon) (env : Env) (name : String) :
    (L.judgeName env name).note.binding = L.meaning? env name := by
  rw [judgeName]
  cases L.meaning? env name <;> rfl

/-- Something is found on every expression below a term. -/
theorem exists_finding (hT : a.HoldsTerm T) (he : a.Below (.expr T.id) (.expr e)) :
    ∃ n, ⟨e, n⟩ ∈ (L.judge env T).findings note := by
  obtain ⟨K, n, -, rfl, -, hsub⟩ : ∃ K n, a.HoldsTerm K ∧ K.id = e ∧ True ∧
      (L.judge env K).findings n ⊆ (L.judge env T).findings note :=
    exists_context_term_of (fun _ _ _ _ => trivial) hT he trivial
  exact ⟨n, hsub own_mem_findings⟩

/-- What is found on a name below a term binds it to its meaning. -/
theorem exists_finding_of_name (wf : a.WellFormed) (hT : a.HoldsTerm T)
    (he : a.Below (.expr T.id) (.expr e)) (hnode : a.expr e = .ok node)
    (hk : node.kind = .identifier name) (hleaves : (L.judge env T).Leaves note) :
    ∃ n, ⟨e, n⟩ ∈ (L.judge env T).findings note ∧ n.binding = L.meaning? env name := by
  obtain ⟨K, n, hK, rfl, hn, hsub⟩ : ∃ K n, a.HoldsTerm K ∧ K.id = e ∧
      (L.judge env K).Leaves n ∧ (L.judge env K).findings n ⊆ (L.judge env T).findings note :=
    exists_context_term_of (C := fun x n => (L.judge env x).Leaves n)
      (fun _ _ hT hx => leaves_noteOn wf hT hx) hT he hleaves
  refine ⟨n, hsub own_mem_findings, ?_⟩
  obtain ⟨parent, hnode'⟩ := hK.exists_node
  cases hnode.symm.trans hnode'
  cases hshape : K.shape with
  | identifier other =>
    rw [hshape] at hk
    cases hk
    rcases hn with rfl | ⟨_, _, _, _, hmember, -⟩
    · rw [judge_label, hshape]
      exact binding_judgeName L env name
    · rw [judge_shape, hshape] at hmember
      cases hmember
  | _ => rw [hshape] at hk; cases hk

end Lexicon

namespace Resolver

variable {r : Resolver} {t : Tree} {T : Term Mark} {env : Env} {n : ExprNote} {e : ExprId}

/-! ## A single visit -/

/-- Every name below the expression is bound to what it means, at its place, in the scopes of the
tree. -/
def NamesHold (r : Resolver) (t : Tree) (e : ExprId) : Prop :=
  ∀ x node name, t.arena.Below (.expr e) (.expr x) → t.arena.expr x = .ok node →
    node.kind = .identifier name →
      (r.setting t.arena).binding? t.notes x name = .ok (t.notes.expr x).binding

/-- The verdict on the expression, if its operands are as noted, is the note on it. -/
def RuleHolds (r : Resolver) (t : Tree) (e : ExprId) : Prop :=
  ∃ node v, t.arena.expr e = .ok node ∧ (r.setting t.arena).judge t.notes e
    (node.kind.map fun x => ⟨x, t.notes.type x⟩) = .ok v ∧ v.note = t.notes.expr e

/-- A visit of a single expression leaves what typing its term in the scopes around it finds and
reports the same, and nothing else. -/
theorem resolveType_leaves (wf : t.arena.WellFormed) (hmode : r.skipsResolved = false)
    (hT : t.arena.HoldsTerm T) (henv : t.arena.framesAbove t.notes (.expr T.id) = env) :
    ∃ t' r', r.resolveType t T.id = .ok ((r.lexicon.judge env T).label.type, t', r') ∧
      t'.arena = t.arena ∧ (∀ s, t'.notes.scope s = t.notes.scope s) ∧
      (∀ x, ¬ t.arena.Below (.expr T.id) (.expr x) → t'.notes.expr x = t.notes.expr x) ∧
      r'.diagnostics = r.diagnostics ++ (r.lexicon.judge env T).diagnostics ∧
      ∀ f ∈ (r.lexicon.judge env T).findings (r.lexicon.judge env T).label.note,
        t'.notes.expr f.expr = f.note := by
  obtain ⟨parent, hnode⟩ := hT.exists_node
  obtain ⟨q, hq, heffect⟩ := Setting.visitExpr_run (s := r.setting t.arena)
    (p := ⟨t.notes, r.diagnostics⟩) wf hT henv
    (.of_not_skips hmode _ _ : Prepared _ t.notes.expr _ _)
    fun hskips => absurd (hmode.symm.trans hskips) Bool.false_ne_true
  have hcontains : t.contains (.expr T.id) := Arena.contains_of_expr hnode
  refine ⟨{ t with notes := q.notes }, { r with diagnostics := q.diagnostics }, ?_, rfl,
    fun s => ?_, fun x hx => ?_, ?_, fun f hf => ?_⟩
  · rw [resolveType, if_pos hcontains, run, hq]
    rfl
  · refine heffect.scope_frame s (fun hc => ?_) id
    obtain ⟨x, hx⟩ := (Arena.covers_singleton.1 hc).of_expr
    cases hx
  · exact heffect.expr_frame x fun hc => hx (Arena.covers_singleton.1 hc)
  · have hdiagnostics := heffect.diagnostics hmode
    rwa [Lexicon.evaluate_singleton] at hdiagnostics
  · have hmem : f ∈ (r.lexicon.evaluate [T] env).1.findings := by simpa [Lexicon.evaluate] using hf
    exact heffect.findings f hmem

section

variable (wf : t.arena.WellFormed) (hT : t.arena.HoldsTerm T)
include wf hT

/-- If the notes on the operands are those that typing the term leaves, the verdict is that of
typing the term. -/
theorem ruleHolds_iff (henv : t.arena.framesAbove t.notes (.expr T.id) = env)
    (found : ∀ f ∈ (r.lexicon.judge env T).findings n, f.expr ≠ T.id →
      t.notes.expr f.expr = f.note) :
    r.RuleHolds t T.id ↔ (r.lexicon.judge env T).label.note = t.notes.expr T.id := by
  obtain ⟨parent, hnode⟩ := hT.exists_node
  have hne : ∀ x ∈ T.shape.slots, ∀ y, t.arena.Below (.expr x.id) (.expr y) → y ≠ T.id := by
    rintro x hx y hy rfl
    exact wf.not_below_of_child (hT.child hx) hy
  have hoperand : ∀ x ∈ T.shape.slots, t.notes.expr x.id =
      (r.lexicon.judge env T).noteOn (r.lexicon.judge env x) := fun x hx =>
    found _ (Lexicon.mem_findings_of_operand hx Lexicon.own_mem_findings) (hne x hx _ (.refl _))
  have hbelow : ∀ x ∈ T.shape.slots, ∀ y ∈ x.shape.slots, t.notes.expr y.id =
      (r.lexicon.judge env x).noteOn (r.lexicon.judge env y) := fun x hx y hy =>
    found _ (Lexicon.mem_findings_of_operand hx
      (Lexicon.mem_findings_of_operand hy Lexicon.own_mem_findings))
      (hne x hx _ (.of_child ((hT.operand hx).child hy) (.refl _)))
  have hjudge := Setting.judge_eq (s := r.setting t.arena) wf hT henv
    (fun x hx => .inr (hoperand x hx)) hbelow
  constructor
  · rintro ⟨node, v, hnode', hv, hnote⟩
    cases hnode.symm.trans hnode'
    rw [Expr.map_map] at hv
    cases hjudge.symm.trans hv
    exact hnote
  · intro hnote
    refine ⟨_, _, hnode, ?_, hnote⟩
    rw [Expr.map_map]
    exact hjudge

/-- The names below a term hold if their meaning now is their meaning in the environment in which
they were bound. -/
theorem namesHold_iff {env' : Env} (henv : t.arena.framesAbove t.notes (.expr T.id) = env)
    (hleaves : (r.lexicon.judge env' T).Leaves n)
    (found : ∀ f ∈ (r.lexicon.judge env' T).findings n, t.notes.expr f.expr = f.note) :
    r.NamesHold t T.id ↔ ∀ name, t.arena.Mentions (.expr T.id) name →
      r.lexicon.meaning? env' name = r.lexicon.meaning? env name := by
  have hname : ∀ x node name, t.arena.Below (.expr T.id) (.expr x) →
      t.arena.expr x = .ok node → node.kind = .identifier name →
        ((r.setting t.arena).binding? t.notes x name = .ok (t.notes.expr x).binding ↔
          r.lexicon.meaning? env' name = r.lexicon.meaning? env name) := by
    intro x node name hx hnode hk
    obtain ⟨m, hm, hbinding⟩ := Lexicon.exists_finding_of_name wf hT hx hnode hk hleaves
    have hframes := (wf.framesAbove_of_below hx).trans henv
    rw [Setting.binding?_eq (s := r.setting t.arena) wf (Arena.contains_of_expr hnode) hframes,
      found _ hm, hbinding, Except.ok.injEq, eq_comm]
    rfl
  constructor
  · rintro h name ⟨x, node, hx, hnode, hk⟩
    exact (hname x node name hx hnode hk).1 (h x node name hx hnode hk)
  · intro h x node name hx hnode hk
    exact (hname x node name hx hnode hk).2 (h name ⟨x, node, hx, hnode, hk⟩)

/-- In a tree in which typing a term in some environment was noted, visiting the term's expression
finds the same exactly if its names hold and its rule holds. -/
theorem resolveType_agrees_iff (hmode : r.skipsResolved = false)
    (hleaves : (r.lexicon.judge env T).Leaves n)
    (found : ∀ f ∈ (r.lexicon.judge env T).findings n, t.notes.expr f.expr = f.note) :
    ∃ type t' r', r.resolveType t T.id = .ok (type, t', r') ∧ t'.arena = t.arena ∧
      (∀ s, t'.notes.scope s = t.notes.scope s) ∧
      ((type = t.notes.type T.id ∧ ∀ x, t'.notes.expr x = t.notes.expr x) ↔
        r.NamesHold t T.id ∧ r.RuleHolds t T.id) := by
  obtain ⟨t', r', hrun, harena, hscope, hframe, -, found'⟩ := resolveType_leaves wf hmode hT rfl
  refine ⟨_, t', r', hrun, harena, hscope, ?_, ?_⟩
  · rintro ⟨-, hsame⟩
    have found₂ : ∀ f ∈ (r.lexicon.judge (t.arena.framesAbove t.notes (.expr T.id)) T).findings
        (r.lexicon.judge (t.arena.framesAbove t.notes (.expr T.id)) T).label.note,
        t.notes.expr f.expr = f.note := fun f hf => (hsame f.expr).symm.trans (found' f hf)
    refine ⟨?_, (ruleHolds_iff wf hT rfl fun f hf _ => found₂ f hf).2 ?_⟩
    · exact (namesHold_iff wf hT rfl (.inl rfl) found₂).2 fun _ _ => rfl
    · exact (found₂ _ Lexicon.own_mem_findings).symm
  · rintro ⟨hnames, hrule⟩
    have hjudge := r.lexicon.judge_congr_meaning hT
      ((namesHold_iff wf hT rfl hleaves found).1 hnames)
    rw [hjudge] at found
    have hown := (ruleHolds_iff wf hT rfl fun f hf _ => found f hf).1 hrule
    refine ⟨by rw [Notes.type, ← hown]; rfl, fun x => ?_⟩
    by_cases hx : t.arena.Below (.expr T.id) (.expr x)
    · obtain ⟨m, hm⟩ := Lexicon.exists_finding hT hx
      rw [found' _ hm]
      rcases Lexicon.mem_findings.1 hm with heq | ⟨y, hy, hm⟩
      · cases heq
        exact hown
      · exact (found _ (Lexicon.mem_findings_of_operand hy hm)).symm
    · exact hframe x hx

/-- What is not a called member access was noted as its own rule says. -/
theorem ruleHolds_of_namesHold (hleaves : (r.lexicon.judge env T).Leaves n)
    (hown : T.label.isCallee = false ∨ T.shape.isMember = false →
      n = (r.lexicon.judge env T).label.note)
    (found : ∀ f ∈ (r.lexicon.judge env T).findings n, t.notes.expr f.expr = f.note)
    (hplain : T.label.isCallee = false ∨ T.shape.isMember = false) (hnames : r.NamesHold t T.id) :
    r.RuleHolds t T.id := by
  have hjudge := r.lexicon.judge_congr_meaning hT
    ((namesHold_iff wf hT rfl hleaves found).1 hnames)
  have hn := hown hplain
  rw [hjudge] at found hn
  refine (ruleHolds_iff wf hT rfl fun f hf _ => found f hf).2 ?_
  rw [← hn]
  exact (found _ Lexicon.own_mem_findings).symm

end

/-! ## After a run -/

/-- After a full run, every expression below the root can be resolved by itself. This gives the type
that the run noted and changes no note exactly if the names below the expression are bound to what
they mean in the scopes that the run left and the expression's own rule gives its note. The second
condition follows from the first unless the expression is a called member access. -/
theorem resolveType_consistent {root : StmtId} (wf : t.arena.WellFormed)
    (hroot : t.contains (.stmt root)) (hmode : r.skipsResolved = false) :
    ∃ t₁ r₁, r.resolveTypes t root = .ok (t₁, r₁) ∧
      ∀ e node, t₁.arena.Below (.stmt root) (.expr e) → t₁.arena.expr e = .ok node →
        (∃ type t₂ r₂, r₁.resolveType t₁ e = .ok (type, t₂, r₂) ∧ t₂.arena = t₁.arena ∧
          (∀ s, t₂.notes.scope s = t₁.notes.scope s) ∧
          ((type = t₁.notes.type e ∧ ∀ x, t₂.notes.expr x = t₁.notes.expr x) ↔
            r₁.NamesHold t₁ e ∧ r₁.RuleHolds t₁ e)) ∧
        (t₁.arena.isCallee e = .ok false ∨ node.kind.isMember = false →
          r₁.NamesHold t₁ e → r₁.RuleHolds t₁ e) := by
  obtain ⟨t₁, r₁, hrun, h₁⟩ := run_leaves wf hroot (restorable_of_not_skips hmode)
  refine ⟨t₁, r₁, hrun, fun e node he hnode => ?_⟩
  obtain ⟨P, hP, rfl, href⟩ := exists_reference wf hroot r t.arena.opens
  have hnote := h₁.note
  have hmode₁ : r₁.skipsResolved = false := h₁.skipsResolved.trans hmode
  rw [href, ← h₁.lexicon] at hnote
  rw [h₁.arena] at he hnode
  obtain ⟨K, env, n, hK, rfl, ⟨hleaves, hcallee⟩, hsub⟩ := Lexicon.exists_context_of r₁.lexicon
    t.arena.opens (C := fun env T note => (r₁.lexicon.judge env T).Leaves note ∧
      (T.label.isCallee = false → note = (r₁.lexicon.judge env T).label.note))
    (fun _ _ => ⟨.inl rfl, fun _ => rfl⟩)
    (fun _ _ _ hT hx => ⟨Lexicon.leaves_noteOn wf hT hx, Lexicon.noteOn_of_not_callee wf hT hx⟩)
    hP he {} (t.arena.framesAbove t.notes (.stmt P.id))
  obtain ⟨parent, hnode'⟩ := hK.exists_node
  cases hnode.symm.trans hnode'
  have found : ∀ f ∈ (r₁.lexicon.judge env K).findings n, t₁.notes.expr f.expr = f.note :=
    fun f hf => hnote f (hsub hf)
  have hown : K.label.isCallee = false ∨ K.shape.isMember = false →
      n = (r₁.lexicon.judge env K).label.note := by
    rintro (hc | hmember)
    · exact hcallee hc
    · exact Lexicon.note_of_leaves hleaves hmember
  have wf₁ : t₁.arena.WellFormed := h₁.arena ▸ wf
  have hK₁ : t₁.arena.HoldsTerm K := h₁.arena ▸ hK
  refine ⟨resolveType_agrees_iff wf₁ hK₁ hmode₁ hleaves found, fun hplain hnames => ?_⟩
  refine ruleHolds_of_namesHold wf₁ hK₁ hleaves hown found (hplain.imp (fun hc => ?_) fun hm => ?_)
    hnames
  · exact Except.ok.inj (hK₁.isCallee_eq.symm.trans hc)
  · simpa using hm

/-- After `{ var line: string = bot.speak("hello") }`, resolving the call by itself gives its type
again and changes nothing, for `bot` still means the same. -/
theorem resolveType_consistent_call :
    speech.arena.WellFormed ∧ speech.contains (.stmt ⟨1⟩) ∧
      ∃ t₁ r₁ type t₂ r₂, speaker.resolveTypes speech ⟨1⟩ = .ok (t₁, r₁) ∧
        r₁.resolveType t₁ ⟨3⟩ = .ok (type, t₂, r₂) ∧ type = some .string ∧
        type = t₁.notes.type ⟨3⟩ ∧ ∀ x, t₂.notes.expr x = t₁.notes.expr x := by
  have wf : speech.arena.WellFormed := Arena.wellFormed_of_check (by decide)
  have hroot : speech.contains (.stmt ⟨1⟩) := by rfl
  obtain ⟨t₁, r₁, hrun, h⟩ := resolveType_consistent (r := speaker) wf hroot rfl
  have hbelow : speech.arena.Below (.stmt ⟨1⟩) (.expr ⟨3⟩) :=
    (wf.mem_nodes hroot rfl).1 (by decide)
  have hnames : r₁.NamesHold t₁ ⟨3⟩ := by
    cases hrun
    rintro ⟨i⟩ node name - hnode hk
    match i with
    | 0 => cases hnode; cases hk; rfl
    | 1 | 2 | 3 => cases hnode; cases hk
    | i + 4 => cases hnode
  have htyped : t₁.arena = speech.arena ∧ t₁.notes.type ⟨3⟩ = some .string := by
    cases hrun
    exact ⟨rfl, rfl⟩
  rw [htyped.1] at h
  obtain ⟨⟨type, t₂, r₂, hresolve, -, -, hiff⟩, hrule⟩ := h ⟨3⟩ _ hbelow rfl
  obtain ⟨htype, hsame⟩ := hiff.2 ⟨hnames, hrule (.inl rfl) hnames⟩
  exact ⟨wf, hroot, t₁, r₁, type, t₂, r₂, hrun, hresolve, htype.trans htyped.2, htype, hsame⟩

/-- The called `bot.speak` has the type of the method, which only the call finds. And in
`{ while x var x: bool }` the name was unknown when the run came to it, and is known by itself. -/
theorem resolveType_not_consistent :
    (∃ t₁ r₁ t₂ r₂, speech.arena.WellFormed ∧ speech.arena.Below (.stmt ⟨1⟩) (.expr ⟨1⟩) ∧
      speaker.resolveTypes speech ⟨1⟩ = .ok (t₁, r₁) ∧
      t₁.notes.type ⟨1⟩ = some (.function [.string] .string) ∧
      r₁.resolveType t₁ ⟨1⟩ = .ok (some .errorType, t₂, r₂)) ∧
    ∃ t₁ r₁ t₂ r₂, selfDeclaring.arena.WellFormed ∧
      selfDeclaring.arena.Below (.stmt ⟨2⟩) (.expr ⟨0⟩) ∧
      resolveTypes { catalog := {} } selfDeclaring ⟨2⟩ = .ok (t₁, r₁) ∧
      t₁.notes.type ⟨0⟩ = some .errorType ∧
      r₁.resolveType t₁ ⟨0⟩ = .ok (some .bool, t₂, r₂) := by
  have wf : speech.arena.WellFormed := Arena.wellFormed_of_check (by decide)
  have hroot : speech.contains (.stmt ⟨1⟩) := by rfl
  have wf' : selfDeclaring.arena.WellFormed := Arena.wellFormed_of_check (by decide)
  have hroot' : selfDeclaring.contains (.stmt ⟨2⟩) := by rfl
  exact ⟨⟨_, _, _, _, wf, (wf.mem_nodes hroot rfl).1 (by decide), rfl, rfl, rfl⟩,
    _, _, _, _, wf', (wf'.mem_nodes hroot' rfl).1 (by decide), rfl, rfl, rfl⟩

end Resolver
end ExprTyping
