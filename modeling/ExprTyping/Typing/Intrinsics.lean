import ExprTyping.Catalog.Lineage
import ExprTyping.Tree.Notes

/-!
# Names that need no declaration

Some names are in scope although no statement declares them: module-level globals, the receiver of
a method body, and the receiver's properties under their bare names.

A definition given here hides every declared one; an implicit member is hidden by every declared
name.
-/

namespace ExprTyping

/-- The names that are in scope without a declaration. -/
structure Intrinsics where
  /-- Names that hide the declared ones. -/
  definition? : String → Option Definition
  /-- Names that the declared ones hide. -/
  implicitMember? : String → Option Binding := fun _ => none

namespace Intrinsics

/-- No names. -/
def none : Intrinsics where
  definition? _ := .none

/-- A fixed list of names; the last one of a name counts. -/
def globals (definitions : List Definition) : Intrinsics where
  definition? name := (definitions.foldl Scope.record {}).find? name

/-- The type of the receiver seen as the type called `name`: in a static method the receiver is
the type itself. -/
def receiverType (isStatic : Bool) (name : String) : Ty :=
  if isStatic then .metatype (.named name) else .named name

/-- The names in the body of a method of the type called `owner`: `self`, `super` if the type has a
supertype, and in an instance method the bare names of the instance properties. -/
def methodBody (catalog : Catalog) (owner : String) (isStatic : Bool) : Intrinsics where
  definition? name :=
    if name = Name.selfIdentifier then some ⟨name, receiverType isStatic owner⟩
    else if name = Name.superIdentifier then
      (catalog.supertypeOf? owner).map fun supertype => ⟨name, receiverType isStatic supertype⟩
    else .none
  implicitMember? name :=
    if isStatic then .none
    else do
      let known ← catalog.knownType? owner
      let property ← catalog.property? name false known
      return .implicitMember owner property

end Intrinsics

end ExprTyping
