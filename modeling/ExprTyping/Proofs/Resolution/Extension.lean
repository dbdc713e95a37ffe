import ExprTyping.Proofs.Lexical.Unmentioned
import ExprTyping.Proofs.Resolution.History

/-!
# Types that nothing mentions

One more type in the catalog makes no difference to a run, whatever its members and its supertype
are, as long as nothing mentions its name: no identifier and no type that is written in the program,
no declared name around it, nothing in the rest of the catalog, and not the provider of the names
that need no declaration (`Resolver.resolveTypes_register`). The two runs follow walks that cannot
tell the catalogs apart (`Lexicon.Extends.simulation`).
-/

namespace ExprTyping

/-- A resolver with this catalog and these intrinsics, in which every expression is visited. -/
def Provider.resolver (provider : Provider) (catalog : Catalog) (diagnostics : List Diagnostic) :
    Resolver where
  catalog := catalog
  intrinsics := provider.intrinsics catalog
  diagnostics := diagnostics

namespace Resolver

variable {catalog : Catalog} {provider : Provider} {k : KnownType} {t : Tree} {root : StmtId}

/-- With a type more that nothing mentions, names mean what they meant before. -/
theorem extends_register (hcatalog : catalog.Avoids k.typeName)
    (hprovider : provider.Avoids k.typeName) (harray : k.typeName ≠ Collection.legacyArray.name)
    (hdictionary : k.typeName ≠ Collection.legacyDictionary.name) (diagnostics) :
    (provider.resolver catalog diagnostics).lexicon.Extends
      (provider.resolver (catalog.register k) diagnostics).lexicon k.typeName where
  agree := catalog.agreeBut_register k
  intrinsics_eq := Provider.intrinsics_agree (catalog.agreeBut_register k) hcatalog hprovider
  catalog := hcatalog
  intrinsics := Provider.intrinsics_avoids hcatalog hprovider
  ne_array := harray
  ne_dictionary := hdictionary

/-- Two resolvers whose lexicons differ in a name that nothing mentions follow the same walk. -/
theorem reference_extends {r r' : Resolver} {name : String}
    (h : r.lexicon.Extends r'.lexicon name) (wf : t.arena.WellFormed)
    (hroot : t.contains (.stmt root)) (hwritten : t.arena.Avoids (.stmt root) name)
    (haround : ∀ s scope, Relation.TransGen t.arena.Parent (.stmt root) (.stmt s) →
      t.scope? s = .ok (some scope) → ∀ d ∈ scope.definitions, d.type.avoids name) :
    r'.reference t t.arena.opens root = r.reference t t.arena.opens root := by
  have hframes := Tree.framesAbove_all wf haround
  have hP := wf.holds_program hroot
  refine Prod.ext ?_ ?_
  · exact (h.simulation (Arena.program_id .. ▸ hwritten)).walk hP (.refl _) .empty ⟨rfl, hframes⟩
  · exact (Lexicon.walk_env ..).trans (Lexicon.walk_env ..).symm

/-- A run leaves and reports the same, whether the catalog has one more type or not, if nothing
mentions the name of that type. -/
theorem resolveTypes_register (hcatalog : catalog.Avoids k.typeName)
    (hprovider : provider.Avoids k.typeName) (harray : k.typeName ≠ Collection.legacyArray.name)
    (hdictionary : k.typeName ≠ Collection.legacyDictionary.name) (wf : t.arena.WellFormed)
    (hroot : t.contains (.stmt root)) (hwritten : t.arena.Avoids (.stmt root) k.typeName)
    (haround : ∀ s scope, Relation.TransGen t.arena.Parent (.stmt root) (.stmt s) →
      t.scope? s = .ok (some scope) → ∀ d ∈ scope.definitions, d.type.avoids k.typeName)
    (diagnostics : List Diagnostic) :
    ∃ t₁ r₁ t₂ r₂,
      (provider.resolver catalog diagnostics).resolveTypes t root = .ok (t₁, r₁) ∧
      (provider.resolver (catalog.register k) diagnostics).resolveTypes t root = .ok (t₂, r₂) ∧
      (∀ e, t₂.notes.expr e = t₁.notes.expr e) ∧ (∀ s, t₂.scope? s = t₁.scope? s) ∧
      r₂.diagnostics = r₁.diagnostics := by
  have hextends := extends_register hcatalog hprovider harray hdictionary diagnostics
  have hsame := reference_extends hextends wf hroot hwritten haround
  have hmode : ∀ catalog, (provider.resolver catalog diagnostics).skipsResolved = false :=
    fun _ => rfl
  obtain ⟨t₁, r₁, hrun₁, h₁⟩ := run_leaves wf hroot (restorable_of_not_skips (hmode catalog))
  obtain ⟨t₂, r₂, hrun₂, h₂⟩ :=
    run_leaves wf hroot (restorable_of_not_skips (hmode (catalog.register k)))
  rw [hsame] at h₂
  obtain ⟨hexpr, hscope⟩ := h₁.agree h₂ wf hroot (.refl t root)
  refine ⟨t₁, r₁, t₂, r₂, hrun₁, hrun₂, hexpr, hscope, ?_⟩
  rw [h₁.diagnostics (hmode _), h₂.diagnostics (hmode _)]
  rfl

/-- `{ self.speak() }` -/
def monologue : Tree where
  arena := {
    exprs := #[
      ⟨.identifier "self", some (.expr ⟨1⟩)⟩,
      ⟨.member ⟨0⟩ "speak", some (.expr ⟨2⟩)⟩,
      ⟨.call ⟨1⟩ [], some (.stmt ⟨0⟩)⟩]
    stmts := #[
      ⟨.expressions [⟨2⟩], some ⟨1⟩, false⟩,
      ⟨.block [⟨0⟩], none, true⟩] }

/-- Dogs are bots that speak otherwise. -/
def dog : KnownType where
  typeName := "Dog"
  supertypeName := some "Bot"
  methods := [{ name := "speak", returnType := .named "Dog" }]

/-- The body of a bot's method. -/
def botMethod : Provider := .methodBody "Bot" false

/-- In the body of a bot's method, nobody asks about dogs. -/
theorem resolveTypes_register_dog :
    monologue.arena.WellFormed ∧ monologue.contains (.stmt ⟨1⟩) ∧ bots.catalog.Avoids "Dog" ∧
      ∃ t₁ r₁ t₂ r₂,
        (botMethod.resolver bots.catalog []).resolveTypes monologue ⟨1⟩ = .ok (t₁, r₁) ∧
        (botMethod.resolver (bots.catalog.register dog) []).resolveTypes monologue ⟨1⟩ =
          .ok (t₂, r₂) ∧
        t₁.notes.type ⟨2⟩ = some .string ∧ (∀ e, t₂.notes.expr e = t₁.notes.expr e) ∧
        (∀ s, t₂.scope? s = t₁.scope? s) ∧ r₂.diagnostics = r₁.diagnostics := by
  have wf : monologue.arena.WellFormed := Arena.wellFormed_of_check (by decide)
  have hroot : monologue.contains (.stmt ⟨1⟩) := by rfl
  have hcatalog : bots.catalog.Avoids dog.typeName := by decide
  have hprovider : botMethod.Avoids dog.typeName := show "Bot" ≠ "Dog" by decide
  have hwritten : monologue.arena.Avoids (.stmt ⟨1⟩) dog.typeName := by
    constructor
    · rintro ⟨⟨i⟩, node, -, hnode, hk⟩
      match i with
      | 0 | 1 | 2 => cases hnode; exact absurd hk (by decide)
      | _ + 3 => cases hnode
    · rintro ⟨i⟩ node declarations - hnode hk
      match i with
      | 0 | 1 => cases hnode; cases hk
      | _ + 2 => cases hnode
    · rintro ⟨i⟩ node x target - hnode hk
      match i with
      | 0 | 1 | 2 => cases hnode; cases hk
      | _ + 3 => cases hnode
  have haround : ∀ s scope, Relation.TransGen monologue.arena.Parent (.stmt ⟨1⟩) (.stmt s) →
      monologue.scope? s = .ok (some scope) →
        ∀ d ∈ scope.definitions, d.type.avoids dog.typeName := by
    intro s scope habove
    obtain ⟨p, hp, -⟩ := Relation.TransGen.head'_iff.1 habove
    cases hp
  obtain ⟨t₁, r₁, t₂, r₂, hrun₁, hrun₂, hexpr, hscope, hreported⟩ :=
    resolveTypes_register hcatalog hprovider (by decide) (by decide) wf hroot hwritten haround []
  refine ⟨wf, hroot, hcatalog, t₁, r₁, t₂, r₂, hrun₁, hrun₂, ?_, hexpr, hscope, hreported⟩
  cases hrun₁
  rfl

end Resolver
end ExprTyping
