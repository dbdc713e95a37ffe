import ExprTyping.Proofs.Lexical.Calls
import ExprTyping.Proofs.Resolution.Node

/-!
# Calls and what they call

After a full run, the notes on a call and on the member that it calls fit together
(`Resolver.resolveTypes_called`): the callee has the type of a function, the call has its result,
and the callee means a constructor, a property or a method with just these types.

The method that alone is meant by the name, the labels and the static-ness of a call is selected,
unless the member is the `init` of a type or a property that holds a function
(`Resolver.resolve_selects_iff`). These come first, so a method with such a name is passed over
(`Resolver.resolve_passes_over`).

Both follow from the rule for calls of members, applied to what a run leaves on the receiver and on
the arguments (`Lexicon.exists_memberCall`).
-/

namespace ExprTyping

variable {r r' : Resolver} {t t' : Tree} {root : StmtId} {n : NodeId} {x : ExprId}

namespace Resolver

/-! ## What calls and callees agree on -/

/-- After a full run, every call of a member that has not failed agrees with its callee. The callee
has the type of a function. Its result is the type of the call, made optional if the call is the
outermost step of a chain with an optional link. And the callee means exactly one of the three: a
constructor of the type that the call makes, a property that holds the function, or a method of the
receiver's lineage with the name, the labels and the static-ness of the call. -/
theorem resolveTypes_called (hmode : r.skipsResolved = false) (wf : t.arena.WellFormed)
    (hroot : t.contains (.stmt root)) :
    ∃ t' r', r.resolveTypes t root = .ok (t', r') ∧
      ∀ call callee receiver name arguments parent parent',
        t.arena.Below (.stmt root) (.expr call) →
        t.arena.expr call = .ok ⟨.call callee arguments, parent⟩ →
        t.arena.expr callee = .ok ⟨.member receiver name, parent'⟩ →
        t'.notes.type call ≠ some .errorType →
        ∃ parameters result, t'.notes.type callee = some (.function parameters result) ∧
          (t.arena.EndsChain call ∧ result.isOptional = false →
            t'.notes.type call = some (.optional result)) ∧
          (¬ (t.arena.EndsChain call ∧ result.isOptional = false) →
            t'.notes.type call = some result) ∧
          ∃! sort : CalledMember, sort.Means r.catalog (t'.notes.type receiver) name
            (argumentLabels arguments) (t'.notes.expr callee) parameters result := by
  obtain ⟨t', r', hrun, harena, htyped⟩ := exists_typedAt (n := .stmt root) hmode wf hroot
  refine ⟨t', r', hrun, ?_⟩
  intro call callee receiver name arguments parent parent' hbelow hcall hcallee hne
  obtain ⟨env, note, hleaves, found⟩ := htyped call hbelow
  rw [harena] at hleaves found
  obtain ⟨harguments, hnotes⟩ := Lexicon.exists_memberCall wf hcall hcallee hleaves found
  obtain ⟨looked, v, hlooked, hv, noteCall, noteCallee⟩ := hnotes (harguments hne)
  have htype : t'.notes.type call = if (t.arena.mark call).closesChain then
      v.type.map Ty.optionalised else v.type := by
    rw [Notes.type, noteCall]
    exact Mark.type_close _ _
  have hfailed : v.type ≠ some .errorType := by
    intro hfailed
    rw [htype, hfailed] at hne
    exact hne (by split_ifs <;> rfl)
  obtain ⟨parameters, result, sort, hresult, hfunction, hmeans⟩ := Rule.memberCall_means
    (fun p hp => hlooked ▸ Lexicon.type_of_member (hlooked ▸ hp)) (hv ▸ hfailed)
  rw [← hv] at hresult hfunction hmeans
  rw [← noteCallee] at hfunction hmeans
  have hends := wf.closesChain_iff (Arena.contains_of_expr hcall)
  have herror : result ≠ .errorType := by
    rintro rfl
    exact hfailed hresult
  rw [hresult] at htype
  refine ⟨parameters, result, hfunction, fun hcloses => ?_, fun hopen => ?_, sort, hmeans,
    fun _ h => hmeans.unique h⟩
  · rw [htype, if_pos (hends.2 hcloses.1), Option.map_some,
      Ty.optionalised_of_ne herror, hcloses.2, if_neg Bool.false_ne_true]
  · rw [htype]
    split_ifs with hmark
    · have hoptional : result.isOptional = true := by
        by_contra hnot
        exact hopen ⟨hends.1 hmark, by simpa using hnot⟩
      rw [Option.map_some, Ty.optionalised_of_ne herror, if_pos hoptional]
    · rfl

/-- In `{ var line: string = bot.speak("hello") }`, the call of the method has the result of the
function that the callee is. -/
theorem resolveTypes_called_method :
    speech.arena.WellFormed ∧ speech.contains (.stmt ⟨1⟩) ∧
      ∃ t' r' parameters result, speaker.resolveTypes speech ⟨1⟩ = .ok (t', r') ∧
        t'.notes.type ⟨1⟩ = some (.function parameters result) ∧
        t'.notes.type ⟨3⟩ = some result ∧ result = .string ∧
        ∃! sort : CalledMember, sort.Means speaker.catalog (t'.notes.type ⟨0⟩) "speak" ["_"]
          (t'.notes.expr ⟨1⟩) parameters result := by
  have wf : speech.arena.WellFormed := Arena.wellFormed_of_check (by decide)
  have hroot : speech.contains (.stmt ⟨1⟩) := by rfl
  obtain ⟨t', r', hrun, h⟩ := resolveTypes_called (show speaker.skipsResolved = false from rfl) wf
    hroot
  have htype : t'.notes.type ⟨3⟩ = some .string := by
    cases hrun
    rfl
  obtain ⟨parameters, result, hfunction, -, hresult, hsort⟩ :=
    h ⟨3⟩ ⟨1⟩ ⟨0⟩ "speak" [⟨none, ⟨2⟩⟩] _ _ ((wf.mem_nodes hroot rfl).1 (by decide)) rfl rfl
      (by simp [htype])
  have hopen : ¬ speech.arena.EndsChain ⟨3⟩ := by
    rw [← wf.closesChain_iff rfl]
    exact Bool.false_ne_true
  have hresult := hresult fun hcloses => hopen hcloses.1
  exact ⟨wf, hroot, t', r', parameters, result, hrun, hfunction, hresult,
    Option.some.inj (hresult.symm.trans htype), hsort⟩

end Resolver

/-! ## Which method is selected -/

namespace Tree

/-- In a typed tree, a call of a member whose receiver has a known type, or is one, and whose
arguments have not failed means this method: it is the only one of the lineage with the name, the
labels and the static-ness of the call. -/
structure CallsMethod (t : Tree) (catalog : Catalog) (call callee receiver : ExprId) (name : String)
    (arguments : List (Argument ExprId)) (type : Ty) (known : KnownType) (m : Method) : Prop where
  expr_call : ∃ parent, t.arena.expr call = .ok ⟨.call callee arguments, parent⟩
  expr_callee : ∃ parent, t.arena.expr callee = .ok ⟨.member receiver name, parent⟩
  type_receiver : t.notes.type receiver = some type
  named : type = .named known.typeName ∨ type = .metatype (.named known.typeName)
  knownType : catalog.knownType? known.typeName = some known
  type_argument : ∀ x ∈ arguments, t.notes.type x.value ≠ some .errorType
  offers : catalog.OffersMethod known m
  accepts : m.accepts name (argumentLabels arguments) type.isMetatype = true
  unique : ∀ m', catalog.OffersMethod known m' →
    m'.accepts name (argumentLabels arguments) type.isMetatype = true → m' = m

/-- The call has the method's return type, unless it ends a chain with an optional link, and the
callee has the method's type and means the method. -/
structure SelectsMethod (t : Tree) (call callee : ExprId) (m : Method) : Prop where
  type_call : ¬ t.arena.EndsChain call → t.notes.type call = some m.returnType
  type_callee : t.notes.type callee = some m.functionType
  member : (t.notes.expr callee).member = some (.method m)

end Tree

namespace Resolver

/-- A full run selects the method that a call means exactly if the member is neither the `init` of a
type nor a name, other than `self`, whose nearest property in the lineage, of this static-ness,
holds a function. -/
theorem resolve_selects_iff (hmode : r.skipsResolved = false) (wf : t.arena.WellFormed)
    (hn : t.contains n) :
    ∃ t' r', r.resolve t n = .ok (t', r') ∧
      ∀ call callee receiver name arguments type known m, t.arena.Below n (.expr call) →
        t'.CallsMethod r.catalog call callee receiver name arguments type known m →
        (t'.SelectsMethod call callee m ↔ ¬ MeansInit (some type) name ∧
          ¬ r.catalog.CallsProperty known name type.isMetatype) := by
  obtain ⟨t', r', hrun, harena, htyped⟩ := exists_typedAt hmode wf hn
  refine ⟨t', r', hrun, ?_⟩
  intro call callee receiver name arguments type known m hbelow h
  have wf' : t'.arena.WellFormed := harena ▸ wf
  obtain ⟨env, note, hleaves, found⟩ := htyped call hbelow
  obtain ⟨parent, hcall⟩ := h.expr_call
  obtain ⟨parent', hcallee⟩ := h.expr_callee
  obtain ⟨-, hnotes⟩ := Lexicon.exists_memberCall wf' hcall hcallee hleaves found
  obtain ⟨looked, v, hlooked, hv, noteCall, noteCallee⟩ := hnotes h.type_argument
  have hreceiver : (t'.notes.expr receiver).type = some type := h.type_receiver
  rw [hreceiver] at hlooked hv
  have hfailed : type ≠ .errorType := by rcases h.named with rfl | rfl <;> simp
  have hknown : r.lexicon.catalog.typeOf? type = some known := by
    rcases h.named with rfl | rfl <;> exact h.knownType
  constructor
  · intro hselects
    have passes_over : ¬ (MeansInit (some type) name ∨
        r.catalog.CallsProperty known name type.isMetatype) := fun hfirst =>
      Lexicon.memberCall_passes_over hfailed hknown hlooked hv hfirst m
        (noteCallee ▸ hselects.member)
    exact not_or.1 passes_over
  · rintro ⟨hinit, hcalls⟩
    obtain ⟨htype, hfunction, hmember⟩ := Lexicon.memberCall_selects hfailed hknown hlooked hv
      (Catalog.method?_of_unique h.offers h.accepts h.unique) hinit hcalls
    refine ⟨fun hopen => ?_, ?_, ?_⟩
    · have hmark : ¬ (t'.arena.mark call).closesChain = true :=
        (wf'.closesChain_iff (Arena.contains_of_expr hcall)).not.2 hopen
      rw [Notes.type, noteCall, Mark.close_of_not_closes (by simpa using hmark)]
      exact htype
    · rw [Notes.type, noteCallee]
      exact hfunction
    · rw [noteCallee]
      exact hmember

end Resolver

/-- `{ widget.onTap() }` -/
def tap : Tree where
  arena := {
    exprs := #[
      ⟨.identifier "widget", some (.expr ⟨1⟩)⟩,
      ⟨.member ⟨0⟩ "onTap", some (.expr ⟨2⟩)⟩,
      ⟨.call ⟨1⟩ [], some (.stmt ⟨0⟩)⟩]
    stmts := #[
      ⟨.expressions [⟨2⟩], some ⟨1⟩, false⟩,
      ⟨.block [⟨0⟩], none, true⟩] }

/-- What a widget does when it is tapped. -/
def onTap : Method where
  name := "onTap"
  returnType := .int

/-- A widget with the method, and with a property of the same name that holds this. -/
def widget (held : Ty) : KnownType where
  typeName := "Widget"
  properties := [{ name := "onTap", type := held }]
  methods := [onTap]

/-- There is a widget. -/
def tapper (held : Ty) : Resolver where
  catalog := { types := [widget held], nodup := by simp }
  intrinsics := .globals [⟨"widget", .named "Widget"⟩]

/-- The call means the method of the widget: there is no other one. -/
theorem Tree.callsMethod_tap (held : Ty) (harena : t.arena = tap.arena)
    (hreceiver : t.notes.type ⟨0⟩ = some (.named "Widget")) :
    t.CallsMethod (tapper held).catalog ⟨2⟩ ⟨1⟩ ⟨0⟩ "onTap" [] (.named "Widget") (widget held)
      onTap := by
  have hlineage : (tapper held).catalog.lineage (widget held) = [widget held] := rfl
  have hoffers : ∀ m, (tapper held).catalog.OffersMethod (widget held) m ↔ m = onTap := by
    intro m
    rw [Catalog.OffersMethod, hlineage]
    simp [widget]
  exact {
    expr_call := ⟨some (.stmt ⟨0⟩), by rw [harena]; rfl⟩
    expr_callee := ⟨some (.expr ⟨2⟩), by rw [harena]; rfl⟩
    type_receiver := hreceiver
    named := .inl rfl
    knownType := rfl
    type_argument := fun x hx => (List.not_mem_nil hx).elim
    offers := (hoffers _).2 rfl
    accepts := rfl
    unique := fun m hm _ => (hoffers m).1 hm }

namespace Resolver

/-- The property holds no function, so the method is selected. -/
theorem resolve_selects_onTap :
    tap.arena.WellFormed ∧ tap.contains (.stmt ⟨1⟩) ∧
      ∃ t' r', (tapper .bool).resolve tap (.stmt ⟨1⟩) = .ok (t', r') ∧
        t'.CallsMethod (tapper .bool).catalog ⟨2⟩ ⟨1⟩ ⟨0⟩ "onTap" [] (.named "Widget")
          (widget .bool) onTap ∧ t'.SelectsMethod ⟨2⟩ ⟨1⟩ onTap := by
  have wf : tap.arena.WellFormed := Arena.wellFormed_of_check (by decide)
  have hroot : tap.contains (.stmt ⟨1⟩) := by rfl
  obtain ⟨t', r', hrun, h⟩ := resolve_selects_iff (r := tapper .bool) rfl wf hroot
  have hcalls : t'.CallsMethod (tapper .bool).catalog ⟨2⟩ ⟨1⟩ ⟨0⟩ "onTap" [] (.named "Widget")
      (widget .bool) onTap := by
    cases hrun
    exact Tree.callsMethod_tap .bool rfl rfl
  refine ⟨wf, hroot, t', r', hrun, hcalls, ?_⟩
  refine (h _ _ _ _ _ _ _ _ ((wf.mem_nodes hroot rfl).1 (by decide)) hcalls).2 ⟨?_, ?_⟩
  · rintro ⟨hname, -⟩
    exact absurd hname (by decide)
  · rintro ⟨-, p, parameters, result, hp, hfunction⟩
    cases hp
    cases hfunction

/-- A property that holds a function is called instead of the method. -/
theorem resolve_passes_over :
    ¬ ∀ (r r' : Resolver) (t t' : Tree) (n : NodeId) (call callee receiver : ExprId) (name : String)
      (arguments : List (Argument ExprId)) (type : Ty) (known : KnownType) (m : Method),
      r.skipsResolved = false → t.arena.WellFormed → t.contains n →
      r.resolve t n = .ok (t', r') → t.arena.Below n (.expr call) →
      t'.CallsMethod r.catalog call callee receiver name arguments type known m →
      t'.SelectsMethod call callee m := by
  intro h
  have wf : tap.arena.WellFormed := Arena.wellFormed_of_check (by decide)
  have hroot : tap.contains (.stmt ⟨1⟩) := by rfl
  have hselects := h (tapper (.function [] .void)) _ tap _ (.stmt ⟨1⟩) ⟨2⟩ ⟨1⟩ ⟨0⟩ "onTap" []
    (.named "Widget") (widget (.function [] .void)) onTap rfl wf hroot rfl
    ((wf.mem_nodes hroot rfl).1 (by decide)) (Tree.callsMethod_tap _ rfl rfl)
  cases hselects.member

end Resolver
end ExprTyping
