import ExprTyping.Proofs.Arena.Check
import ExprTyping.Proofs.Arena.Links
import ExprTyping.Proofs.Lexical.Calls
import ExprTyping.Proofs.Resolution.Surroundings

/-!
# The bare names of members

In the body of an instance method, the bare name of a property means the property of `self`, unless
the name is declared around it (`Resolver.resolve_bareMember`). The name and the member access get
there on different ways. The name is looked up in the type that the method belongs to. The member
access is typed by its receiver `self`, and the property is looked up in the receiver's type. Both
find the nearest property along the lineage (`Catalog.instanceProperty?`).

A member access that is called may mean a method instead, which a bare name never does
(`Resolver.resolve_bareMember_called`). `Tree.CalledAsMethod` says when.
-/

namespace ExprTyping

/-! ## What is looked up -/

/-- The instance property that a value of the type called `owner` has under this name. -/
def Catalog.instanceProperty? (catalog : Catalog) (owner name : String) : Option Property :=
  (catalog.knownType? owner).bind (catalog.property? name false)

namespace Intrinsics

variable (catalog : Catalog) (owner name : String)

theorem definition?_self (isStatic : Bool) :
    (methodBody catalog owner isStatic).definition? Name.selfIdentifier =
      some ⟨Name.selfIdentifier, receiverType isStatic owner⟩ := rfl

theorem implicitMember?_instance :
    (methodBody catalog owner false).implicitMember? name =
      (catalog.instanceProperty? owner name).map (.implicitMember owner) := by
  simp only [methodBody, Catalog.instanceProperty?]
  cases catalog.knownType? owner with
  | none => rfl
  | some known => cases h : catalog.property? name false known <;> simp [h]

end Intrinsics

/-- A method that a call finds settles the callee, unless a property that holds a function comes
first; nothing else does. -/
theorem Rule.callee_methodCall {catalog : Catalog} {receiver : Ty} {name : String}
    {callee : ExprNote} {labels : List String}
    (h : ∀ known m, catalog.typeOf? receiver = some known →
      catalog.method? name labels receiver.isMetatype known = some m →
      (returnedByProperty? callee.member).isSome = true) :
    (methodCall catalog receiver name callee labels).callee = none := by
  unfold methodCall
  split
  · rfl
  · rename_i hproperty
    split
    · rfl
    · rename_i known hknown
      split
      · rename_i m hm
        have hsome := h known m hknown hm
        rw [hproperty] at hsome
        cases hsome
      · rfl

namespace Lexicon

variable {L : Lexicon} {env : Env} {owner name : String} {p : Property} {a : Arena}
  {x receiver : ExprId} {parent parent' : Option NodeId} {isCallee : Bool}

/-- A name means an implicit member only if nothing else gives it a meaning. -/
theorem meaning?_eq_implicitMember_iff : L.meaning? env name = some (.implicitMember owner p) ↔
    L.intrinsics.definition? name = none ∧ env.find? name = none ∧
      L.intrinsics.implicitMember? name = some (.implicitMember owner p) := by
  unfold meaning?
  cases L.intrinsics.definition? name with
  | some d => simp
  | none =>
    cases env.find? name with
    | some d => simp
    | none => cases L.intrinsics.implicitMember? name <;> simp

theorem type_of_meaning {b : Binding} (h : L.meaning? env name = some b) :
    (L.judgeName env name).note.type = some b.type := by
  rw [judgeName, h]

section

variable (hL : L.intrinsics = .methodBody L.catalog owner false)
include hL

theorem meaning?_bare (hfree : L.intrinsics.definition? name = none)
    (hundeclared : env.find? name = none) :
    L.meaning? env name = some (.implicitMember owner p) ↔
      L.catalog.instanceProperty? owner name = some p := by
  rw [meaning?_eq_implicitMember_iff, hL, Intrinsics.implicitMember?_instance]
  rw [hL] at hfree
  simp [hfree, hundeclared]

theorem type_self (env : Env) :
    (L.judgeName env Name.selfIdentifier).note.type = some (.named owner) := by
  have hmeaning : L.meaning? env Name.selfIdentifier =
      some (.defined ⟨Name.selfIdentifier, .named owner⟩) := by
    rw [meaning?, hL, Intrinsics.definition?_self]
    rfl
  exact type_of_meaning hmeaning

/-- A member access of `self` is judged by the type that the method belongs to. -/
theorem label_accessOfSelf (wf : a.WellFormed)
    (hx : a.expr x = .ok ⟨.member receiver name, parent⟩)
    (hreceiver : a.expr receiver = .ok ⟨.identifier Name.selfIdentifier, parent'⟩) (env : Env) :
    (L.judge env (a.term x)).label =
      L.judgeMember (a.mark x).isCallee ⟨receiver, some (.named owner)⟩ name := by
  have hopen : (a.mark x).closesChain = false := by
    rw [← Bool.not_eq_true, wf.closesChain_iff (Arena.contains_of_expr hx), Arena.EndsChain,
      Arena.linked_iff hx]
    simp [Expr.receiver?, Arena.linked_iff hreceiver]
  have hself : (L.judge env (a.term receiver)).operand = ⟨receiver, some (.named owner)⟩ := by
    rw [wf.judge_term L env hreceiver]
    exact congrArg (Operand.mk receiver) (type_self hL env)
  rw [wf.judge_term L env hx]
  show (a.mark x).close (L.judgeMember _ (L.judge env (a.term receiver)).operand name) = _
  rw [Mark.close_of_not_closes hopen, hself]

end

theorem member_ofSelf (hname : name ≠ Name.selfMember) :
    (L.judgeMember isCallee ⟨receiver, some (.named owner)⟩ name).note.member =
        some (.property p) ↔
      L.catalog.instanceProperty? owner name = some p := by
  rw [member_judgeMember (by simp), if_neg hname]
  show ((L.catalog.instanceProperty? owner name).map Member.property) = _ ↔ _
  simp

end Lexicon

/-! ## Names and member accesses in a tree -/

namespace Arena

variable {a : Arena} {n : NodeId} {x : ExprId}

/-- The bare name. -/
def IsName (a : Arena) (e : ExprId) (name : String) : Prop :=
  ∃ parent, a.expr e = .ok ⟨.identifier name, parent⟩

/-- The member access `self.name`. -/
def IsMemberOfSelf (a : Arena) (e : ExprId) (name : String) : Prop :=
  ∃ receiver parent, a.expr e = .ok ⟨.member receiver name, parent⟩ ∧
    a.IsName receiver Name.selfIdentifier

/-- An expression below a node that is neither the node nor called is called by a call below the
node. -/
theorem WellFormed.called_or (wf : a.WellFormed) (hx : a.Below n (.expr x)) :
    (a.isCallee x = .ok false ∨ n = .expr x) ∨ ∃ call arguments parent, a.Below n (.expr call) ∧
      a.expr call = .ok ⟨.call x arguments, parent⟩ := by
  rcases Relation.ReflTransGen.cases_tail hx with heq | ⟨q, hq, hchild⟩
  · exact .inl (.inr heq.symm)
  cases q with
  | stmt s => exact .inl (.inl (wf.not_applied_of_stmt hchild).1)
  | expr call =>
    obtain ⟨node, hcall⟩ := exists_expr hchild.contains
    obtain ⟨y, hy, heq⟩ := (child_expr_iff hcall).1 hchild
    cases heq
    by_cases hcallee : node.kind.callee? = some x
    · obtain ⟨kind, parent⟩ := node
      cases kind with
      | call g arguments =>
        cases hcallee
        exact .inr ⟨call, arguments, parent, hq, hcall⟩
      | _ => cases hcallee
    · refine .inl (.inl ?_)
      rw [wf.isCallee_of_slot hcall hy, beq_eq_false_iff_ne.2 hcallee]

end Arena

/-- In a typed tree, a call below the node calls the member access `self.name`, no argument has
failed, and what is called is the method `m` of the type that the method body belongs to. -/
def Tree.CalledAsMethod (t : Tree) (catalog : Catalog) (owner : String) (n : NodeId) (x : ExprId)
    (name : String) (m : Method) : Prop :=
  ∃ call arguments parent known, t.arena.Below n (.expr call) ∧
    t.arena.expr call = .ok ⟨.call x arguments, parent⟩ ∧
    (∀ y ∈ arguments, t.notes.type y.value ≠ some .errorType) ∧
    catalog.knownType? owner = some known ∧ ¬ catalog.CallsProperty known name false ∧
    catalog.method? name (argumentLabels arguments) false known = some m

/-- The name `e` in the one tree is bound to a property of `self` exactly if the member access `x`
in the other tree means the property, and then both have its type. -/
structure Tree.SameMember (t u : Tree) (owner : String) (e x : ExprId) (p : Property) : Prop where
  bound_iff : (t.notes.expr e).binding = some (.implicitMember owner p) ↔
    (u.notes.expr x).member = some (.property p)
  types : (t.notes.expr e).binding = some (.implicitMember owner p) →
    t.notes.type e = some p.type ∧ u.notes.type x = some p.type

/-! ## In a method body -/

namespace Resolver

variable {r s : Resolver} {t u : Tree} {n m : NodeId} {e x : ExprId} {env : Env} {note : ExprNote}
  {catalog : Catalog} {owner name : String} {isStatic : Bool} {p : Property}

/-- The resolver types the body of a method of the type called `owner`, in default mode. -/
structure TypesBody (r : Resolver) (catalog : Catalog) (owner : String) (isStatic : Bool) :
    Prop where
  catalog_eq : r.catalog = catalog
  intrinsics_eq : r.intrinsics = .methodBody catalog owner isStatic
  mode : r.skipsResolved = false

theorem TypesBody.lexicon (hr : r.TypesBody catalog owner isStatic) :
    r.lexicon.intrinsics = .methodBody r.lexicon.catalog owner isStatic := by
  obtain ⟨rfl, hintrinsics, -⟩ := hr
  exact hintrinsics

/-- The member access is called through a function exactly if the nearest property holds one. -/
theorem TypesBody.returned_iff (hr : r.TypesBody catalog owner isStatic) {isCallee : Bool}
    {receiver : ExprId} {looked : ExprNote} {known : KnownType}
    (hlooked : looked = (r.lexicon.judgeMember isCallee ⟨receiver, some (.named owner)⟩ name).note)
    (hknown : catalog.knownType? owner = some known) :
    (Rule.returnedByProperty? looked.member).isSome = true ↔
      catalog.CallsProperty known name false := by
  obtain rfl := hr.catalog_eq
  rw [hlooked]
  exact Lexicon.returnedByProperty?_judgeMember (L := r.lexicon) (by simp) hknown

namespace Surrounded

theorem note_name (h : r.Surrounded t n e env note) (wf : t.arena.WellFormed)
    (he : t.arena.IsName e name) : t.notes.expr e = (r.lexicon.judgeName env name).note := by
  obtain ⟨parent, hnode⟩ := he
  have hmember : (t.arena.term e).shape.isMember = false := by
    rw [wf.term_eq hnode]
    rfl
  rw [h.found _ (t.arena.own_mem_findings r.lexicon env e note),
    Lexicon.note_of_leaves h.leaves hmember, wf.judge_term r.lexicon env hnode]
  rfl

/-- A name that no scope around the expression declares had no declared meaning. -/
theorem find?_eq_none (h : r.Surrounded t n e env note) (wf : t.arena.WellFormed)
    (he : t.contains (.expr e)) (hnone : t.definitionNamed? (.expr e) name = .ok none) :
    env.find? name = none := by
  have hframes : (t.arena.framesAbove t.notes (.expr e)).find? name = none :=
    Except.ok.inj ((wf.definitionNamed?_eq he name).symm.trans hnone)
  by_contra hdeclared
  exact h.declared name hdeclared hframes

end Surrounded

section

variable (wf : t.arena.WellFormed)
  (hsurrounded : ∀ x, t.arena.Below n (.expr x) → ∃ env note, r.Surrounded t n x env note)
include wf hsurrounded

/-- A bare name is bound to what the type of the method body has under it. -/
theorem note_bare (hr : r.TypesBody catalog owner false) (he : t.arena.Below n (.expr e))
    (hname : t.arena.IsName e name) (hnone : t.definitionNamed? (.expr e) name = .ok none)
    (hfree : (Intrinsics.methodBody catalog owner false).definition? name = none) :
    ((t.notes.expr e).binding = some (.implicitMember owner p) ↔
        catalog.instanceProperty? owner name = some p) ∧
      ((t.notes.expr e).binding = some (.implicitMember owner p) →
        t.notes.type e = some p.type) := by
  obtain ⟨env, note, h⟩ := hsurrounded e he
  have hundeclared := h.find?_eq_none wf (Arena.contains_of_expr hname.choose_spec) hnone
  rw [← hr.intrinsics_eq] at hfree
  rw [Notes.type, h.note_name wf hname, Lexicon.binding_judgeName, ← hr.catalog_eq]
  exact ⟨Lexicon.meaning?_bare hr.lexicon hfree hundeclared, Lexicon.type_of_meaning⟩

/-- In the body of a static method, no name is bound to a member. -/
theorem not_implicitMember (hr : r.TypesBody catalog owner true) (he : t.arena.Below n (.expr e))
    (hname : t.arena.IsName e name) (owner' : String) :
    (t.notes.expr e).binding ≠ some (.implicitMember owner' p) := by
  obtain ⟨env, note, h⟩ := hsurrounded e he
  rw [h.note_name wf hname, Lexicon.binding_judgeName, Ne, Lexicon.meaning?_eq_implicitMember_iff,
    hr.lexicon]
  rintro ⟨-, -, himplicit⟩
  cases himplicit

theorem type_receiver (hr : r.TypesBody catalog owner false) {receiver : ExprId}
    (hbelow : t.arena.Below n (.expr receiver))
    (hself : t.arena.IsName receiver Name.selfIdentifier) :
    (t.notes.expr receiver).type = some (.named owner) := by
  obtain ⟨env, note, h⟩ := hsurrounded receiver hbelow
  rw [h.note_name wf hself, Lexicon.type_self hr.lexicon]

/-- What is left on a member access of `self` that is called: what the call settles, if no argument
has failed, and else the member's own note. -/
theorem note_calledOfSelf (hr : r.TypesBody catalog owner false) {call receiver : ExprId}
    {arguments : List (Argument ExprId)} {parent parent' : Option NodeId}
    (hbelow : t.arena.Below n (.expr call))
    (hcall : t.arena.expr call = .ok ⟨.call x arguments, parent⟩)
    (hx : t.arena.expr x = .ok ⟨.member receiver name, parent'⟩)
    (hself : t.arena.IsName receiver Name.selfIdentifier) :
    ∃ looked, looked = (r.lexicon.judgeMember true ⟨receiver, some (.named owner)⟩ name).note ∧
      ((∀ y ∈ arguments, t.notes.type y.value ≠ some .errorType) → t.notes.expr x =
        (Rule.methodCall catalog (.named owner) name looked (argumentLabels arguments)).callee.getD
          looked) ∧
      ((¬ ∀ y ∈ arguments, t.notes.type y.value ≠ some .errorType) → t.notes.expr x = looked) := by
  obtain ⟨env, note, h⟩ := hsurrounded call hbelow
  obtain ⟨parent'', hreceiver⟩ := id hself
  have htype := type_receiver wf hsurrounded hr
    ((hbelow.tail ((Arena.child_expr_iff hcall).2 ⟨x, List.mem_cons_self, rfl⟩)).tail
      ((Arena.child_expr_iff hx).2 ⟨receiver, List.mem_singleton.2 rfl, rfl⟩)) hself
  refine ⟨_, rfl, fun harguments => ?_, fun harguments => ?_⟩
  · obtain ⟨-, hnotes⟩ := Lexicon.exists_memberCall wf hcall hx h.leaves h.found
    obtain ⟨looked, v, rfl, rfl, -, hcallee⟩ := hnotes harguments
    rw [hcallee, htype, ← hr.catalog_eq]
    rfl
  · obtain ⟨hcallee, hnotes⟩ := Lexicon.notes_below_call wf hcall h.found
    obtain ⟨y, hy, hfailed⟩ : ∃ y ∈ arguments, t.notes.type y.value = some .errorType := by
      simpa using harguments
    rw [Notes.type, hnotes y hy] at hfailed
    rw [hcallee, Lexicon.label_failedCall r.lexicon wf hcall env hy hfailed,
      Lexicon.label_callee r.lexicon wf hcall hx, wf.judge_term r.lexicon env hreceiver]
    show (r.lexicon.judgeMember true ⟨receiver, (r.lexicon.judgeName env _).note.type⟩ name).note = _
    rw [Lexicon.type_self hr.lexicon]

/-- A member access of `self` means the method that a call of it finds. -/
theorem member_of_calledAsMethod (hr : r.TypesBody catalog owner false)
    (haccess : t.arena.IsMemberOfSelf x name) {method : Method}
    (h : t.CalledAsMethod catalog owner n x name method) :
    (t.notes.expr x).member = some (.method method) := by
  obtain ⟨receiver, parent, hx, hself⟩ := haccess
  obtain ⟨call, arguments, parent, known, hbelow, hcall, harguments, hknown, hproperty, hm⟩ := h
  obtain ⟨looked, hlooked, hnote, -⟩ := note_calledOfSelf wf hsurrounded hr hbelow hcall hx hself
  rw [← hr.returned_iff hlooked hknown, Option.not_isSome_iff_eq_none] at hproperty
  have hinit : ¬ MeansInit (some (.named owner)) name := by
    rintro ⟨-, subject, hsubject⟩
    cases hsubject
  have hmethod : Rule.memberCall catalog (some (.named owner)) name looked
      (argumentLabels arguments) = _ :=
    Rule.memberCall_method (by simp) hinit hproperty hknown hm
  rw [hnote harguments]
  exact congrArg (fun v => (v.callee.getD looked).member) hmethod

/-- If no call finds a method, a member access of `self` means what the look-up finds in the type of
the method body. -/
theorem note_of_not_calledAsMethod (hr : r.TypesBody catalog owner false)
    (hx : t.arena.Below n (.expr x)) (haccess : t.arena.IsMemberOfSelf x name)
    (hno : ¬ ∃ method, t.CalledAsMethod catalog owner n x name method) :
    ∃ isCallee receiver, t.notes.expr x =
      (r.lexicon.judgeMember isCallee ⟨receiver, some (.named owner)⟩ name).note := by
  obtain ⟨receiver, parent, hnode, hself⟩ := haccess
  rcases wf.called_or hx with hfree | ⟨call, arguments, parent, hbelow, hcall⟩
  · obtain ⟨env, note, h⟩ := hsurrounded x hx
    obtain ⟨parent', hreceiver⟩ := hself
    refine ⟨(t.arena.mark x).isCallee, receiver, ?_⟩
    rw [h.found _ (t.arena.own_mem_findings r.lexicon env x note), h.own hfree,
      Lexicon.label_accessOfSelf hr.lexicon wf hnode hreceiver]
  · obtain ⟨looked, hlooked, hnote, hfailed⟩ :=
      note_calledOfSelf wf hsurrounded hr hbelow hcall hnode hself
    refine ⟨true, receiver, ?_⟩
    rw [← hlooked]
    by_cases harguments : ∀ y ∈ arguments, t.notes.type y.value ≠ some .errorType
    · rw [hnote harguments, Rule.callee_methodCall]
      · rfl
      intro known m hknown hm
      rw [hr.returned_iff hlooked hknown]
      by_contra hproperty
      exact hno ⟨m, call, arguments, parent, known, hbelow, hcall, harguments, hknown, hproperty,
        hm⟩
    · exact hfailed harguments

end

/-- In the body of a static method no name is bound to a member. In the body of an instance method,
a name that is neither an intrinsic nor declared in a scope around it is bound to a property of
`self` exactly if the member access of `self` means this property, and then both have its type. The
exception is a member access that is called and found to mean a method. -/
theorem resolve_bareMember (hr : r.TypesBody catalog owner isStatic)
    (hs : s.TypesBody catalog owner isStatic) (wf : t.arena.WellFormed) (hn : t.contains n)
    (wf' : u.arena.WellFormed) (hm : u.contains m) :
    ∃ t' r' u' s', r.resolve t n = .ok (t', r') ∧ s.resolve u m = .ok (u', s') ∧
      ∀ e name, t.arena.Below n (.expr e) → t.arena.IsName e name →
        (isStatic = true → ∀ owner' p,
          (t'.notes.expr e).binding ≠ some (.implicitMember owner' p)) ∧
        (isStatic = false → t'.definitionNamed? (.expr e) name = .ok none →
          (Intrinsics.methodBody catalog owner false).definition? name = none →
          ∀ x, u.arena.Below m (.expr x) → u.arena.IsMemberOfSelf x name →
            (∀ method, u'.CalledAsMethod catalog owner m x name method →
              (u'.notes.expr x).member = some (.method method)) ∧
            ((¬ ∃ method, u'.CalledAsMethod catalog owner m x name method) →
              ∀ p, t'.SameMember u' owner e x p)) := by
  obtain ⟨t', r', hrun, harena, hsurrounded⟩ := exists_surrounded hr.mode wf hn
  obtain ⟨u', s', hrun', harena', hsurrounded'⟩ := exists_surrounded hs.mode wf' hm
  rw [← harena] at wf hsurrounded
  rw [← harena'] at wf' hsurrounded'
  refine ⟨t', r', u', s', hrun, hrun', fun e name he hname => ?_⟩
  rw [← harena] at he hname
  constructor
  · rintro rfl
    exact fun owner' p => not_implicitMember wf hsurrounded hr he hname owner'
  · rintro rfl hnone hfree x hx haccess
    rw [← harena'] at hx haccess
    refine ⟨fun method h => member_of_calledAsMethod wf' hsurrounded' hs haccess h,
      fun hno p => ?_⟩
    obtain ⟨isCallee, receiver, hnote⟩ :=
      note_of_not_calledAsMethod wf' hsurrounded' hs hx haccess hno
    obtain ⟨hbinding, htype⟩ := note_bare (p := p) wf hsurrounded hr he hname hnone hfree
    have hne : name ≠ Name.selfMember := by
      rintro rfl
      cases hfree
    have hmember : (u'.notes.expr x).member = some (.property p) ↔
        catalog.instanceProperty? owner name = some p := by
      rw [hnote, Lexicon.member_ofSelf hne, ← hs.catalog_eq]
      rfl
    refine ⟨hbinding.trans hmember.symm, fun hbound => ⟨htype hbound, ?_⟩⟩
    rw [Notes.type]
    have hproperty := hmember.2 (hbinding.1 hbound)
    rw [hnote] at hproperty ⊢
    exact Lexicon.type_of_member hproperty

end Resolver

/-- A string that is called `title`. -/
def title : Property where
  name := "title"
  type := .string

/-- An entrance, which inherits the title from the right wing by way of the left wing. The wings
inherit from each other. The left wing has these methods. -/
def building (methods : List Method) : Catalog :=
  Catalog.empty.registerAll [
    { typeName := "Entrance", supertypeName := some "LeftWing" },
    { typeName := "LeftWing", supertypeName := some "RightWing", methods },
    { typeName := "RightWing", supertypeName := some "LeftWing", properties := [title] }]

/-- Types the bodies of the methods of the entrance. -/
def doorkeeper (methods : List Method) : Resolver where
  catalog := building methods
  intrinsics := .methodBody (building methods) "Entrance" false

theorem Resolver.typesBody_doorkeeper (methods : List Method) :
    (doorkeeper methods).TypesBody (building methods) "Entrance" false := ⟨rfl, rfl, rfl⟩

/-- A body with this one expression. -/
def bodyOf (exprs : Array ExprNode) (root : ExprId) : Tree where
  arena := { exprs, stmts := #[⟨.expressions [root], some ⟨1⟩, false⟩, ⟨.block [⟨0⟩], none, true⟩] }

/-- `{ title }` -/
def bareTitle : Tree := bodyOf #[⟨.identifier "title", some (.stmt ⟨0⟩)⟩] ⟨0⟩

/-- `{ self.title }` -/
def titleOfSelf : Tree :=
  bodyOf #[⟨.identifier "self", some (.expr ⟨1⟩)⟩, ⟨.member ⟨0⟩ "title", some (.stmt ⟨0⟩)⟩] ⟨1⟩

namespace Resolver

/-- Both `title` and `self.title` mean the title that the right wing declares. -/
theorem resolve_bareMember_inherited :
    ∃ t' r' u' s', bareTitle.arena.WellFormed ∧ titleOfSelf.arena.WellFormed ∧
      (doorkeeper []).resolve bareTitle (.stmt ⟨1⟩) = .ok (t', r') ∧
      (doorkeeper []).resolve titleOfSelf (.stmt ⟨1⟩) = .ok (u', s') ∧
      t'.definitionNamed? (.expr ⟨0⟩) "title" = .ok none ∧
      (t'.notes.expr ⟨0⟩).binding = some (.implicitMember "Entrance" title) ∧
      (u'.notes.expr ⟨1⟩).member = some (.property title) ∧
      t'.notes.type ⟨0⟩ = some .string ∧ u'.notes.type ⟨1⟩ = some .string := by
  have wf : bareTitle.arena.WellFormed := Arena.wellFormed_of_check (by decide)
  have wf' : titleOfSelf.arena.WellFormed := Arena.wellFormed_of_check (by decide)
  have hn : bareTitle.contains (.stmt ⟨1⟩) := by rfl
  have hm : titleOfSelf.contains (.stmt ⟨1⟩) := by rfl
  have hr := typesBody_doorkeeper []
  obtain ⟨t', r', u', s', hrun, hrun', h⟩ := resolve_bareMember hr hr wf hn wf' hm
  have hbare : t'.definitionNamed? (.expr ⟨0⟩) "title" = .ok none ∧
      (t'.notes.expr ⟨0⟩).binding = some (.implicitMember "Entrance" title) := by
    cases hrun
    exact ⟨rfl, rfl⟩
  have harena : u'.arena = titleOfSelf.arena := by
    cases hrun'
    rfl
  have hno : ¬ ∃ method, u'.CalledAsMethod (building []) "Entrance" (.stmt ⟨1⟩) ⟨1⟩ "title"
      method := by
    rintro ⟨method, ⟨i⟩, arguments, parent, known, -, hcall, -⟩
    rw [harena] at hcall
    match i with
    | 0 | 1 => cases hcall
    | i + 2 => cases hcall
  obtain ⟨-, hsame⟩ := (h ⟨0⟩ "title" ((wf.mem_nodes hn rfl).1 (by decide)) ⟨_, rfl⟩).2 rfl hbare.1
    rfl ⟨1⟩ ((wf'.mem_nodes hm rfl).1 (by decide)) ⟨⟨0⟩, _, rfl, _, rfl⟩
  have hsame := hsame hno title
  obtain ⟨htype, htype'⟩ := hsame.types hbare.2
  exact ⟨t', r', u', s', wf, wf', hrun, hrun', hbare.1, hbare.2, hsame.bound_iff.1 hbare.2, htype,
    htype'⟩

end Resolver

/-- `{ title() }` -/
def bareCall : Tree :=
  bodyOf #[⟨.identifier "title", some (.expr ⟨1⟩)⟩, ⟨.call ⟨0⟩ [], some (.stmt ⟨0⟩)⟩] ⟨1⟩

/-- `{ self.title() }` -/
def callOfSelf : Tree :=
  bodyOf #[⟨.identifier "self", some (.expr ⟨1⟩)⟩, ⟨.member ⟨0⟩ "title", some (.expr ⟨2⟩)⟩,
    ⟨.call ⟨1⟩ [], some (.stmt ⟨0⟩)⟩] ⟨2⟩

/-- A method that is called `title`. -/
def titleMethod : Method where
  name := "title"
  returnType := .int

namespace Resolver

/-- If the left wing has a method of the name, the called `title` still means the title, but the
called `self.title` means the method. -/
theorem resolve_bareMember_called :
    ∃ t' r' u' s', bareCall.arena.WellFormed ∧ callOfSelf.arena.WellFormed ∧
      (doorkeeper [titleMethod]).TypesBody (building [titleMethod]) "Entrance" false ∧
      (Intrinsics.methodBody (building [titleMethod]) "Entrance" false).definition? "title" = none ∧
      (doorkeeper [titleMethod]).resolve bareCall (.stmt ⟨1⟩) = .ok (t', r') ∧
      (doorkeeper [titleMethod]).resolve callOfSelf (.stmt ⟨1⟩) = .ok (u', s') ∧
      bareCall.arena.IsName ⟨0⟩ "title" ∧ callOfSelf.arena.IsMemberOfSelf ⟨1⟩ "title" ∧
      t'.definitionNamed? (.expr ⟨0⟩) "title" = .ok none ∧
      (t'.notes.expr ⟨0⟩).binding = some (.implicitMember "Entrance" title) ∧
      (u'.notes.expr ⟨1⟩).member = some (.method titleMethod) ∧
      ¬ t'.SameMember u' "Entrance" ⟨0⟩ ⟨1⟩ title := by
  have wf : bareCall.arena.WellFormed := Arena.wellFormed_of_check (by decide)
  have wf' : callOfSelf.arena.WellFormed := Arena.wellFormed_of_check (by decide)
  obtain ⟨t', r', hrun, -⟩ :=
    exists_surrounded (r := doorkeeper [titleMethod]) (n := .stmt ⟨1⟩) rfl wf rfl
  obtain ⟨u', s', hrun', -⟩ :=
    exists_surrounded (r := doorkeeper [titleMethod]) (n := .stmt ⟨1⟩) rfl wf' rfl
  have hbare : ((doorkeeper [titleMethod]).resolve bareCall (.stmt ⟨1⟩)).toOption.map (fun run =>
      (run.1.definitionNamed? (.expr ⟨0⟩) "title", (run.1.notes.expr ⟨0⟩).binding)) =
        some (.ok none, some (.implicitMember "Entrance" title)) := by
    decide +kernel
  have hcalled : ((doorkeeper [titleMethod]).resolve callOfSelf (.stmt ⟨1⟩)).toOption.map
      (fun run => (run.1.notes.expr ⟨1⟩).member) = some (some (.method titleMethod)) := by
    decide +kernel
  rw [hrun] at hbare
  rw [hrun'] at hcalled
  obtain ⟨hnone, hbinding⟩ := Prod.mk.inj (Option.some.inj hbare)
  have hmember : (u'.notes.expr ⟨1⟩).member = some (.method titleMethod) := Option.some.inj hcalled
  refine ⟨t', r', u', s', wf, wf', typesBody_doorkeeper _, rfl, hrun, hrun', ⟨_, rfl⟩,
    ⟨⟨0⟩, _, rfl, _, rfl⟩, hnone, hbinding, hmember, fun hsame => ?_⟩
  cases hmember.symm.trans (hsame.bound_iff.1 hbinding)

end Resolver
end ExprTyping
