import ExprTyping.Catalog.Basic

/-!
# Class intentions

An intention describes a class that is about to be generated: its superclass, instance variables,
properties and methods. `Intention.toKnownType` is its shape in the catalog, so that expressions
can use the members of classes that are declared beside them. Access levels are carried along for
the generator; typing does not look at them.
-/

namespace ExprTyping

/-- Who may use a type or member. -/
inductive AccessLevel where
  | ownType
  | sameFile
  | sameModule
  | everyone
  deriving DecidableEq, Repr

namespace AccessLevel

/-- The level of a declaration that names none. -/
def standard : AccessLevel := .sameModule

/-- The keyword of the level. -/
def keyword : AccessLevel → String
  | .ownType => "private"
  | .sameFile => "fileprivate"
  | .sameModule => "internal"
  | .everyone => "public"

/-- The level that a keyword stands for. -/
def ofKeyword? (text : String) : Option AccessLevel :=
  [ownType, sameFile, sameModule, everyone].find? fun level => level.keyword == text

end AccessLevel

/-- An instance variable of a class to be generated. -/
structure InstanceVariable where
  name : String
  type : Ty
  access : AccessLevel := .ownType
  deriving DecidableEq, Repr

/-- A property of a class to be generated. -/
structure IntendedProperty where
  property : Property
  access : AccessLevel := .standard
  deriving DecidableEq, Repr

/-- A method of a class to be generated. -/
structure IntendedMethod where
  method : Method
  access : AccessLevel := .standard
  deriving DecidableEq, Repr

/-- A class to be generated. -/
structure Intention where
  typeName : String
  /-- The superclass, or none for a root class. -/
  superclass : Option String := some Name.rootClass
  access : AccessLevel := .standard
  protocols : List String := []
  instanceVariables : List InstanceVariable := []
  properties : List IntendedProperty := []
  methods : List IntendedMethod := []
  deriving DecidableEq, Repr

/-- The instance variable as a property of the values. -/
def InstanceVariable.toProperty (v : InstanceVariable) : Property := ⟨v.name, v.type, false⟩

/-- The shape of the class: instance variables count as properties, and there is a constructor
without parameters. -/
def Intention.toKnownType (i : Intention) : KnownType where
  typeName := i.typeName
  supertypeName := i.superclass
  constructors := [⟨[]⟩]
  properties := i.instanceVariables.map (·.toProperty) ++ i.properties.map (·.property)
  methods := i.methods.map (·.method)

/-- Registers the shape of the class. -/
def Catalog.registerIntention (catalog : Catalog) (i : Intention) : Catalog :=
  catalog.register i.toKnownType

end ExprTyping
