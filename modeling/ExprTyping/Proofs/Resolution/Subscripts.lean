import ExprTyping.Proofs.Catalog.Subtyping
import ExprTyping.Proofs.Lexical.Chaining
import ExprTyping.Proofs.Resolution.Node

/-!
# Subscripts of arrays

What is indexed like an array, an array or an instance of a class that inherits from the legacy
array (`Catalog.ArrayLike`), takes an index of the type `Int` and of no other type. A run leaves the
type of the elements on such a subscript, or fails it and reports the index, once
(`Resolver.resolve_subscript`). A named integer type, whose values can be added and masked like
those of `Int`, is no type of an index (`Resolver.resolve_rejects_named_integer`).

The verdict on a subscript follows from the types that are left on its operands
(`Lexicon.label_arrayLike`). As no expression is visited twice, there is one report at most about
each (`Resolver.nodup_reported`), and if the notes that are left determine the issue of an
expression, then this is all that is reported about it (`Resolver.reported_about`).
-/

namespace ExprTyping

open Relation (ReflTransGen)

/-! ## The rule -/

/-- Values of the type are indexed like arrays. They are arrays of such elements, or instances of a
class that a chain of declared supertypes leads from to the legacy array, whose elements are any
objects. -/
def Catalog.ArrayLike (catalog : Catalog) (type element : Ty) : Prop :=
  type = .array element ∨ element = .anyObject ∧
    ∃ name, type = .named name ∧ ReflTransGen catalog.Declares name Collection.legacyArray.name

theorem Catalog.ArrayLike.ne_errorType {catalog : Catalog} {type element : Ty}
    (h : catalog.ArrayLike type element) : type ≠ .errorType := by
  rcases h with rfl | ⟨-, name, rfl, -⟩
  · exact Ty.noConfusion
  · exact Ty.noConfusion

namespace Rule

variable {catalog : Catalog} {type element index : Ty}

/-- The verdict on a subscript with an index of this type. -/
def indexed (type element index : Ty) : Verdict :=
  if index = .int then .typed (some element) else .reported (.nonIntegerSubscript type index)

theorem integerSubscript_eq (type element index : Ty) :
    integerSubscript type (some index) element = indexed type element index := by
  by_cases h : index = .int
  · rw [indexed, if_pos h, h]
    rfl
  · rw [indexed, if_neg h]
    exact integerSubscript.eq_2 type element index h

theorem subscript_arrayLike (h : catalog.ArrayLike type element) (index : Ty) :
    subscript catalog (some type) (some index) = indexed type element index := by
  rw [← integerSubscript_eq]
  rcases h with rfl | ⟨rfl, name, rfl, hchain⟩
  · have helement : (Ty.array element).arrayElement? = some element :=
      Ty.arrayElement?_eq_some_iff.2 rfl
    simp only [subscript, helement]
  · have hinstance : isInstance catalog (.named name) .legacyArray = true :=
      Catalog.isSubtype_iff_reaches.2 hchain
    simp only [subscript, Ty.arrayElement?, Ty.dictionaryEntry?, if_pos hinstance]

end Rule

/-! ## The verdict and the notes -/

namespace Lexicon

variable {L : Lexicon} {a : Arena} {env : Env} {e receiver index : ExprId}
  {parent : Option NodeId} {note : ExprNote} {notes : ExprId → ExprNote} {type element indexType : Ty}

variable (wf : a.WellFormed) (hnode : a.expr e = .ok ⟨.subscript receiver index, parent⟩)
  (found : ∀ f ∈ (L.judge env (a.term e)).findings note, notes f.expr = f.note)
include wf hnode found

/-- The verdict on a subscript of something like an array, from the notes on its operands. -/
theorem label_arrayLike (hreceiver : (notes receiver).type = some type)
    (hindex : (notes index).type = some indexType) (hresolved : indexType ≠ .errorType)
    (h : L.catalog.ArrayLike type element) :
    (L.judge env (a.term e)).label =
      (a.mark e).close (Rule.indexed type element indexType) := by
  have hoperand : ∀ x ∈ [receiver, index], notes x = (L.judge env (a.term x)).label.note :=
    fun x hx => wf.note_operand L env hnode hx (by simp [Expr.callee?]) found
  have htype : (L.judge env (a.term receiver)).label.type = some type := by
    rw [Verdict.type, ← hoperand receiver (by simp), hreceiver]
  have htype' : (L.judge env (a.term index)).label.type = some indexType := by
    rw [Verdict.type, ← hoperand index (by simp), hindex]
  rw [wf.judge_term L env hnode]
  show (a.mark e).close (unlessFailed [⟨_, _⟩, ⟨_, _⟩] _) = _
  rw [htype, htype', Rule.subscript_arrayLike h, unlessFailed, if_neg]
  simp [Operand.isFailed, h.ne_errorType, hresolved]

end Lexicon

/-! ## What is reported about one expression -/

/-- Of a list whose images are distinct, one element has the image that it has. -/
theorem filter_eq_singleton {α β : Type} [DecidableEq α] [DecidableEq β] {f : α → β} {xs : List α}
    {x : α} (h : (xs.map f).Nodup) (hx : x ∈ xs) : xs.filter (fun y => f y = f x) = [x] := by
  have hinjective := List.inj_on_of_nodup_map h
  calc xs.filter (fun y => f y = f x)
      = xs.filter (fun y => y = x) := List.filter_congr fun y hy =>
        decide_eq_decide.2 ⟨hinjective hy hx, congrArg f⟩
    _ = List.replicate (xs.count x) x := List.filter_eq x
    _ = [x] := by rw [List.count_eq_one_of_mem h.of_map hx]; rfl

namespace Resolver

variable {r : Resolver} {t : Tree} {n : NodeId} {x : ExprId} {issue : Option Issue}

/-- There is at most one report about each expression. -/
theorem nodup_reported (r : Resolver) (wf : t.arena.WellFormed) (hn : t.contains n) :
    (((r.outcome t n).diagnostics.filter (·.node.isExpr)).map (·.node)).Nodup := by
  cases n with
  | stmt root =>
    have hP := wf.holds_program hn
    exact (hP.nodup_visitOrder wf).sublist (Lexicon.expr_diagnostics_sublist wf
      (c := ⟨t.arena.program root, {}, t.arena.framesAbove t.notes (.stmt root)⟩) hP)
  | expr e =>
    rw [outcome, Lexicon.evaluate_singleton]
    have hnodup := ((wf.holds_term hn).nodup_postorder wf).map fun _ _ => NodeId.expr.inj
    have hsublist := r.lexicon.diagnostics_judge_sublist
      (t.arena.framesAbove t.notes (.expr e)) (fun _ => true) (t.arena.term e)
    rw [List.filter_true] at hsublist
    exact hnodup.sublist ((List.filter_sublist.map Diagnostic.node).trans hsublist)

/-- If the notes that are left determine the issue of an expression, then it is all that is reported
about it. -/
theorem reported_about (wf : t.arena.WellFormed) (hn : t.contains n)
    (hx : t.arena.Below n (.expr x)) (hmember : (t.arena.term x).shape.isMember = false)
    (hissue : ∀ env, (r.lexicon.judge env (t.arena.term x)).findings
        (r.lexicon.judge env (t.arena.term x)).label.note ⊆ (r.outcome t n).findings →
      (r.lexicon.judge env (t.arena.term x)).label.issue = issue) :
    (r.outcome t n).diagnostics.filter (fun d => d.node = .expr x) =
      (issue.map (⟨·, .expr x⟩)).toList := by
  obtain ⟨env, note, hleaves, hfindings, hdiagnostics⟩ := r.exists_typing wf hn hx
  obtain rfl := Lexicon.note_of_leaves hleaves hmember
  cases issue with
  | none =>
    refine List.filter_eq_nil_iff.2 fun d hd heq => ?_
    obtain ⟨i, node'⟩ := d
    obtain rfl : node' = .expr x := of_decide_eq_true heq
    obtain ⟨env', hissue', hsub⟩ := r.exists_reporting wf hn hd
    cases hissue'.symm.trans (hissue env' hsub)
  | some i =>
    have hmem : ⟨i, .expr x⟩ ∈ (r.outcome t n).diagnostics := by
      refine hdiagnostics (Lexicon.mem_diagnostics.2 (.inr ⟨hissue env hfindings, ?_⟩))
      rw [t.arena.term_id]
    have hexpr : ⟨i, .expr x⟩ ∈ (r.outcome t n).diagnostics.filter (·.node.isExpr) :=
      List.mem_filter.2 ⟨hmem, rfl⟩
    have hsingle := filter_eq_singleton (r.nodup_reported wf hn) hexpr
    rw [List.filter_filter] at hsingle
    refine (List.filter_congr fun d _ => ?_).trans hsingle
    rw [Bool.eq_iff_iff, Bool.and_eq_true, decide_eq_true_eq]
    exact ⟨fun h => ⟨h, by rw [h]; rfl⟩, And.left⟩

end Resolver

/-! ## Subscripts in a typed tree -/

namespace Tree

/-- In a typed tree, an expression below the node is a subscript of something like an array of such
elements. Both operands are resolved, and the index has not failed. -/
structure IndexesArray (t : Tree) (catalog : Catalog) (n : NodeId) (e : ExprId)
    (type element indexType : Ty) : Prop where
  below : t.arena.Below n (.expr e)
  expr : ∃ receiver index parent, t.arena.expr e = .ok ⟨.subscript receiver index, parent⟩ ∧
    t.notes.type receiver = some type ∧ t.notes.type index = some indexType
  arrayLike : catalog.ArrayLike type element
  resolved : indexType ≠ .errorType

/-- The subscript has the type of the elements, made optional at the end of a chain with an optional
link, and nothing is reported about it. -/
structure YieldsElement (t : Tree) (reported : List Diagnostic) (e : ExprId) (element : Ty) :
    Prop where
  type_open : ¬ t.arena.EndsChain e → t.notes.type e = some element
  type_chain : t.arena.EndsChain e → t.notes.type e = some element.optionalised
  silent : reported.filter (fun d => d.node = .expr e) = []

/-- The subscript has failed, and the only report about it is that of the index. -/
structure RejectsIndex (t : Tree) (reported : List Diagnostic) (e : ExprId)
    (type indexType : Ty) : Prop where
  failed : t.notes.type e = some .errorType
  report : reported.filter (fun d => d.node = .expr e) =
    [⟨.nonIntegerSubscript type indexType, .expr e⟩]

end Tree

namespace Resolver

variable {r r' : Resolver} {t t' : Tree} {n : NodeId}

/-- In default mode, a subscript of something like an array whose operands are resolved has the type
of the elements, and nothing is reported about it, if the index is an `Int`. With any other index it
has failed, and this is reported once. -/
theorem resolve_subscript (hmode : r.skipsResolved = false) (wf : t.arena.WellFormed)
    (hn : t.contains n) :
    ∃ t' r' reported, r.resolve t n = .ok (t', r') ∧
      r'.diagnostics = r.diagnostics ++ reported ∧
      ∀ e type element indexType, t'.IndexesArray r.catalog n e type element indexType →
        (indexType = .int → t'.YieldsElement reported e element) ∧
        (indexType ≠ .int → t'.RejectsIndex reported e type indexType) := by
  obtain ⟨t', r', hrun, harena, hnote, hdiagnostics⟩ := resolve_leaves hmode wf hn
  refine ⟨t', r', _, hrun, hdiagnostics, ?_⟩
  intro e type element indexType h
  obtain ⟨receiver, index, parent, hnode, hreceiver, hindex⟩ := h.expr
  have hbelow := h.below
  rw [harena] at hnode hbelow
  -- whatever the environment, the types that are left on the operands decide
  have hlabel : ∀ env, (r.lexicon.judge env (t.arena.term e)).findings
      (r.lexicon.judge env (t.arena.term e)).label.note ⊆ (r.outcome t n).findings →
      (r.lexicon.judge env (t.arena.term e)).label =
        (t.arena.mark e).close (Rule.indexed type element indexType) := fun env hsub =>
    Lexicon.label_arrayLike wf hnode (fun f hf => hnote f (hsub hf)) hreceiver hindex h.resolved
      h.arrayLike
  have hmember : (t.arena.term e).shape.isMember = false := by
    rw [wf.term_eq hnode]
    rfl
  have hreported := reported_about wf hn hbelow hmember fun env hsub => by
    rw [hlabel env hsub, Mark.issue_close]
  have htype : t'.notes.type e = ((t.arena.mark e).close
      (Rule.indexed type element indexType)).type := by
    obtain ⟨env, note, hleaves, hsub, -⟩ := r.exists_typing wf hn hbelow
    obtain rfl := Lexicon.note_of_leaves hleaves hmember
    rw [Notes.type, hnote _ (hsub (t.arena.own_mem_findings r.lexicon env e _)), hlabel env hsub]
    rfl
  rw [Mark.type_close] at htype
  have hends := wf.closesChain_iff (Arena.contains_of_expr hnode)
  rw [← harena] at hends htype
  constructor
  · intro hint
    rw [Rule.indexed, if_pos hint] at htype hreported
    refine ⟨fun hopen => ?_, fun hcloses => ?_, hreported⟩
    · rw [htype, if_neg (hends.not.2 hopen)]
      rfl
    · rw [htype, if_pos (hends.2 hcloses)]
      rfl
  · intro hint
    rw [Rule.indexed, if_neg hint] at htype hreported
    refine ⟨?_, hreported⟩
    rw [htype]
    split_ifs <;> rfl

end Resolver

/-- `xs[i]` -/
def subscripted : Tree where
  arena := {
    exprs := #[
      ⟨.identifier "xs", some (.expr ⟨2⟩)⟩,
      ⟨.identifier "i", some (.expr ⟨2⟩)⟩,
      ⟨.subscript ⟨0⟩ ⟨1⟩, some (.stmt ⟨0⟩)⟩]
    stmts := #[⟨.expressions [⟨2⟩], none, false⟩] }

/-- The names `xs` and `i` have these types, and `Rows` inherits from the legacy array. -/
def indexer (type indexType : Ty) : Resolver where
  catalog := {
    types := [{ typeName := "Rows", supertypeName := some Collection.legacyArray.name }]
    nodup := by simp }
  intrinsics := .globals [⟨"xs", type⟩, ⟨"i", indexType⟩]

/-- In a typed `xs[i]`, the `i` is an index of something like an array. -/
theorem Tree.indexesArray_subscripted {t : Tree} {catalog : Catalog} {type elementType indexType : Ty}
    (harena : t.arena = subscripted.arena) (hreceiver : t.notes.type ⟨0⟩ = some type)
    (hindex : t.notes.type ⟨1⟩ = some indexType) (h : catalog.ArrayLike type elementType)
    (hresolved : indexType ≠ .errorType) :
    t.IndexesArray catalog (.stmt ⟨0⟩) ⟨2⟩ type elementType indexType where
  below := by
    have wf : subscripted.arena.WellFormed := Arena.wellFormed_of_check (by decide)
    rw [harena]
    exact (wf.mem_nodes (show subscripted.contains (.stmt ⟨0⟩) from rfl) rfl).1 (by decide)
  expr := ⟨⟨0⟩, ⟨1⟩, some (.stmt ⟨0⟩), by rw [harena]; rfl, hreceiver, hindex⟩
  arrayLike := h
  resolved := hresolved

namespace Resolver

/-- The elements of `Rows`, indexed by an `Int`, are any objects. -/
theorem resolve_subscript_rows : subscripted.arena.WellFormed ∧ subscripted.contains (.stmt ⟨0⟩) ∧
    ∃ t' r' reported,
      (indexer (.named "Rows") .int).resolve subscripted (.stmt ⟨0⟩) = .ok (t', r') ∧
      t'.IndexesArray (indexer (.named "Rows") .int).catalog (.stmt ⟨0⟩) ⟨2⟩ (.named "Rows")
        .anyObject .int ∧ t'.YieldsElement reported ⟨2⟩ .anyObject := by
  have wf : subscripted.arena.WellFormed := Arena.wellFormed_of_check (by decide)
  have hroot : subscripted.contains (.stmt ⟨0⟩) := by rfl
  obtain ⟨t', r', reported, hrun, -, h⟩ :=
    resolve_subscript (r := indexer (.named "Rows") .int) rfl wf hroot
  obtain ⟨_, _, hrun', harena, -⟩ :=
    resolve_leaves (r := indexer (.named "Rows") .int) rfl wf hroot
  cases hrun.symm.trans hrun'
  have htypes : ((indexer (.named "Rows") .int).resolve subscripted (.stmt ⟨0⟩)).toOption.map
      (fun left => (left.1.notes.type ⟨0⟩, left.1.notes.type ⟨1⟩)) =
        some (some (.named "Rows"), some .int) := by decide +kernel
  rw [hrun] at htypes
  obtain ⟨hreceiver, hindex⟩ := Prod.mk.inj (Option.some.inj htypes)
  have harray : (indexer (.named "Rows") .int).catalog.ArrayLike (.named "Rows") .anyObject :=
    .inr ⟨rfl, "Rows", rfl, .single ⟨_, rfl, rfl⟩⟩
  have hindexes := Tree.indexesArray_subscripted harena hreceiver hindex harray (by simp)
  exact ⟨wf, hroot, t', r', reported, hrun, hindexes, (h _ _ _ _ hindexes).1 rfl⟩

/-- An `NSInteger` is an integer, but an array of strings is not indexed by it. -/
theorem resolve_rejects_named_integer :
    ¬ ∀ (r r' : Resolver) (t t' : Tree) (n : NodeId) (e : ExprId) (type element indexType : Ty),
      r.skipsResolved = false → t.arena.WellFormed → t.contains n →
      r.resolve t n = .ok (t', r') → t'.IndexesArray r.catalog n e type element indexType →
      ¬ t'.arena.EndsChain e →
      (t'.notes.type e = some element ↔ indexType.isInteger = true) := by
  intro h
  have wf : subscripted.arena.WellFormed := Arena.wellFormed_of_check (by decide)
  have hroot : subscripted.contains (.stmt ⟨0⟩) := by rfl
  have hopen : ¬ subscripted.arena.EndsChain ⟨2⟩ := by
    rw [← wf.closesChain_iff rfl]
    exact Bool.false_ne_true
  have hiff := h (indexer (.array .string) (.named "NSInteger")) _ subscripted _ (.stmt ⟨0⟩) ⟨2⟩
    (.array .string) .string (.named "NSInteger") rfl wf hroot rfl
    (Tree.indexesArray_subscripted rfl rfl rfl (.inl rfl) (by simp)) hopen
  cases hiff.2 rfl

end Resolver
end ExprTyping
