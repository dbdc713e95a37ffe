import ExprTyping.Proofs.Arena.Check
import ExprTyping.Proofs.Lexical.Chaining
import ExprTyping.Proofs.Resolution.Run

/-!
# Optional chaining

Optional chaining is mapping over the optional. A chain of operators on `x?` gets the type that the
same operators give to `(y)`, made optional, if `y` has the type of `x` with one level of
optionality removed; and all operators in between get the same types and members
(`Resolver.resolveTypes_chain`).

Both runs type the chain in the same environment (`Arena.Unlinks.exists_env`), where `x` and `y`
have the types that the provider gives them.
-/

namespace ExprTyping
namespace Resolver

variable {r : Resolver} {t t' : Tree} {root s : StmtId} {base link last : ExprId} {x y : String}
  {ops : List ExprId} {X : Ty}

/-- The provider gives the name this type, and neither what is below the root nor what is around it
declares the name. -/
structure Provides (r : Resolver) (t : Tree) (root : StmtId) (name : String) (type : Ty) :
    Prop where
  intrinsic : r.intrinsics.type? name = some type
  unbound : ¬ t.arena.Binds (.stmt root) name
  around : ∀ s scope, Relation.TransGen t.arena.Parent (.stmt root) (.stmt s) →
    t.scope? s = .ok (some scope) → ∀ d ∈ scope.definitions, d.name ≠ name

/-- Both runs type an expression on the link in one environment, in which names have the types that
the provider gives them. -/
theorem exists_shared_env (h : t.arena.Unlinks t'.arena base link x y)
    (hnotes : t'.notes.scope = t.notes.scope) (wf : t.arena.WellFormed)
    (hroot : t.contains (.stmt root)) (hs : t.arena.Below (.stmt root) (.stmt s))
    (hlast : t.arena.Child (.stmt s) (.expr last))
    (hbase : t.arena.Below (.expr last) (.expr base)) :
    ∃ env, (∀ name type, r.Provides t root name type →
        (r.lexicon.judgeName env name).type = some type) ∧
      (r.lexicon.judge env (t.arena.term last)).findings
          (r.lexicon.judge env (t.arena.term last)).label.note ⊆
        (r.reference t t.arena.opens root).1.findings ∧
      (r.lexicon.judge env (t'.arena.term last)).findings
          (r.lexicon.judge env (t'.arena.term last)).label.note ⊆
        (r.reference t' t'.arena.opens root).1.findings := by
  have hframes : t'.arena.framesAbove t'.notes (.stmt root) =
      t.arena.framesAbove t.notes (.stmt root) := by
    rw [Arena.framesAbove, Arena.framesAbove, h.ownersAbove_eq, hnotes]
  obtain ⟨env, hfree, hold, hnew⟩ := h.exists_env wf r.lexicon hroot hs hlast hbase
    (t.arena.framesAbove t.notes (.stmt root))
  refine ⟨env, fun name type hname => ?_, hold, ?_⟩
  · exact Lexicon.type_judgeName hname.intrinsic
      (hfree name hname.unbound (Tree.framesAbove_all wf hname.around))
  · rw [reference, hframes]
    exact hnew

/-- Operators on the link `x?`, in any statement, get the types and members that they get on `(y)`;
only the last one makes its type optional. -/
theorem resolveTypes_chain (hmode : r.skipsResolved = false)
    (h : t.arena.Unlinks t'.arena base link x y) (hnotes : t'.notes.scope = t.notes.scope)
    (wf : t.arena.WellFormed) (hroot : t.contains (.stmt root)) (hx : r.Provides t root x X)
    (hy : r.Provides t root y X.unwrapped) (hs : t.arena.Below (.stmt root) (.stmt s))
    (hlast : t.arena.Child (.stmt s) (.expr last)) (hops : t.arena.Builds link last ops) :
    ∃ t₁ r₁ t₂ r₂, r.resolveTypes t root = .ok (t₁, r₁) ∧
      r.resolveTypes t' root = .ok (t₂, r₂) ∧
      t₁.notes.type last = (t₂.notes.type last).map Ty.optionalised ∧
      ∀ q ∈ ops.tail, t₁.notes.type q = t₂.notes.type q ∧
        (t₁.notes.expr q).member = (t₂.notes.expr q).member := by
  have hroot' : t'.contains (.stmt root) := by
    show t'.arena.contains _
    rw [h.contains_eq]
    exact hroot
  obtain ⟨t₁, r₁, hrun₁, h₁⟩ := run_leaves wf hroot (restorable_of_not_skips hmode)
  obtain ⟨t₂, r₂, hrun₂, h₂⟩ :=
    run_leaves (h.wellFormed wf) hroot' (restorable_of_not_skips hmode)
  obtain ⟨env, htype, hold, hnew⟩ := exists_shared_env h hnotes wf hroot hs hlast
    (hops.below_link.tail h.child_base)
  refine ⟨t₁, r₁, t₂, r₂, hrun₁, hrun₂, ?_, fun q hq => ?_⟩
  · have last₁ := h₁.note _ (hold Lexicon.own_mem_findings)
    have last₂ := h₂.note _ (hnew Lexicon.own_mem_findings)
    rw [Arena.term_id] at last₁ last₂
    rw [Notes.type, Notes.type, last₁, last₂]
    exact h.type_outermost wf r.lexicon (htype x X hx) (htype y _ hy) hops hlast
  · obtain ⟨note, hq₁, hq₂⟩ :=
      h.exists_note wf r.lexicon (htype x X hx) (htype y _ hy) hops hq _ _
    have hnote : t₁.notes.expr q = t₂.notes.expr q :=
      (h₁.note _ (hold hq₁)).trans (h₂.note _ (hnew hq₂)).symm
    rw [Notes.type, Notes.type, hnote]
    exact ⟨rfl, rfl⟩

/-- A block that calls `twin()` and then `speak()` on the start, which is made of the name. -/
def greeting (name : String) (start : Expr ExprId) : Tree where
  arena := {
    exprs := #[
      ⟨.identifier name, some (.expr ⟨1⟩)⟩,
      ⟨start, some (.expr ⟨2⟩)⟩,
      ⟨.member ⟨1⟩ "twin", some (.expr ⟨3⟩)⟩,
      ⟨.call ⟨2⟩ [], some (.expr ⟨4⟩)⟩,
      ⟨.member ⟨3⟩ "speak", some (.expr ⟨5⟩)⟩,
      ⟨.call ⟨4⟩ [], some (.stmt ⟨0⟩)⟩]
    stmts := #[
      ⟨.expressions [⟨5⟩], some ⟨1⟩, false⟩,
      ⟨.block [⟨0⟩], none, true⟩] }

/-- `{ bot?.twin().speak() }` -/
def linked : Tree := greeting "bot" (.chain ⟨0⟩)

/-- `{ (friend).twin().speak() }` -/
def unlinked : Tree := greeting "friend" (.parens ⟨0⟩)

/-- There may be a bot, and there is a friend, who is a bot. -/
def company : Resolver where
  catalog := {
    types := [{
      typeName := "Bot"
      methods := [{ name := "twin", returnType := .named "Bot" },
        { name := "speak", returnType := .string }] }] }
  intrinsics := .globals [⟨"bot", .optional (.named "Bot")⟩, ⟨"friend", .named "Bot"⟩]

theorem provides_company (name : String) (type : Ty)
    (h : company.intrinsics.type? name = some type) :
    company.Provides linked ⟨1⟩ name type where
  intrinsic := h
  unbound := by
    rintro ⟨⟨i⟩, node, -, hnode, hmem⟩
    match i with
    | 0 | 1 => cases hnode; cases hmem
    | _ + 2 => cases hnode
  around := by
    intro s scope habove
    obtain ⟨p, hp, -⟩ := Relation.TransGen.head'_iff.1 habove
    cases hp

/-- What the bot's twin says is optional, and what the friend's twin says is not; both twins are
bots. -/
theorem resolveTypes_chain_twin :
    company.skipsResolved = false ∧ linked.arena.Unlinks unlinked.arena ⟨0⟩ ⟨1⟩ "bot" "friend" ∧
      linked.arena.WellFormed ∧ linked.contains (.stmt ⟨1⟩) ∧
      company.Provides linked ⟨1⟩ "bot" (.optional (.named "Bot")) ∧
      company.Provides linked ⟨1⟩ "friend" (.named "Bot") ∧
      linked.arena.Builds ⟨1⟩ ⟨5⟩ [⟨5⟩, ⟨4⟩, ⟨3⟩, ⟨2⟩] ∧
      ∃ t₁ r₁ t₂ r₂, company.resolveTypes linked ⟨1⟩ = .ok (t₁, r₁) ∧
        company.resolveTypes unlinked ⟨1⟩ = .ok (t₂, r₂) ∧
        t₁.notes.type ⟨5⟩ = some (.optional .string) ∧ t₂.notes.type ⟨5⟩ = some .string ∧
        t₁.notes.type ⟨3⟩ = some (.named "Bot") ∧
        (t₁.notes.expr ⟨4⟩).member = (t₂.notes.expr ⟨4⟩).member ∧
        (t₂.notes.expr ⟨4⟩).member.isSome := by
  have hunlinks : linked.arena.Unlinks unlinked.arena ⟨0⟩ ⟨1⟩ "bot" "friend" := by
    refine ⟨rfl, rfl, ⟨_, rfl, rfl⟩, ⟨_, rfl, rfl⟩, ?_⟩
    rintro ⟨i⟩ hbase hlink
    match i with
    | 0 => exact absurd rfl hbase
    | 1 => exact absurd rfl hlink
    | 2 | 3 | 4 | 5 | _ + 6 => rfl
  have wf : linked.arena.WellFormed := Arena.wellFormed_of_check (by decide)
  have hroot : linked.contains (.stmt ⟨1⟩) := by rfl
  have hbot := provides_company "bot" (.optional (.named "Bot")) (by rfl)
  have hfriend := provides_company "friend" (.named "Bot") (by rfl)
  have hops : linked.arena.Builds ⟨1⟩ ⟨5⟩ [⟨5⟩, ⟨4⟩, ⟨3⟩, ⟨2⟩] :=
    .step rfl rfl (.step rfl rfl (.step rfl rfl (.step rfl rfl .link)))
  obtain ⟨t₁, r₁, t₂, r₂, hrun₁, hrun₂, htype, hsame⟩ :=
    resolveTypes_chain (s := ⟨0⟩) rfl hunlinks rfl wf hroot hbot hfriend
      ((wf.mem_nodes hroot rfl).1 (by decide)) ⟨_, rfl, by decide⟩ hops
  have hfound : (company.resolveTypes unlinked ⟨1⟩).toOption.map (fun run =>
      (run.1.notes.type ⟨5⟩, run.1.notes.type ⟨3⟩, (run.1.notes.expr ⟨4⟩).member.isSome)) =
      some (some .string, some (.named "Bot"), true) := by
    decide +kernel
  rw [hrun₂] at hfound
  obtain ⟨hspeak, htwin, hmember⟩ : t₂.notes.type ⟨5⟩ = some .string ∧
      t₂.notes.type ⟨3⟩ = some (.named "Bot") ∧ (t₂.notes.expr ⟨4⟩).member.isSome := by
    simpa [Except.toOption] using hfound
  refine ⟨rfl, hunlinks, wf, hroot, hbot, hfriend, hops, t₁, r₁, t₂, r₂, hrun₁, hrun₂, ?_, hspeak,
    (hsame ⟨3⟩ (by decide)).1.trans htwin, (hsame ⟨4⟩ (by decide)).2, hmember⟩
  rw [htype, hspeak]
  rfl

end Resolver
end ExprTyping
