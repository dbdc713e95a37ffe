import ExprTyping.Ty.Basic
import ExprTyping.Vocabulary.Name

/-!
# What is known of a named type

A `KnownType` records the shape of a named type: its supertype, constructors, properties and
methods. Calls are matched by argument labels alone: the list of labels in order, with
`Name.wildcardLabel` for an argument without one. Parameter types play no part.

The look-ups here see a type's own members only. Walking to the supertypes needs the other types
and belongs to the catalog.
-/

namespace ExprTyping

/-- A parameter of a constructor or method. -/
structure Parameter where
  label : String := Name.wildcardLabel
  name : String
  type : Ty
  deriving DecidableEq, Repr

/-- A parameter whose argument is written without a label. -/
def Parameter.unlabeled (name : String) (type : Ty) : Parameter :=
  ⟨Name.wildcardLabel, name, type⟩

/-- A constructor of a type. -/
structure Constructor where
  parameters : List Parameter := []
  deriving DecidableEq, Repr

/-- A stored or computed property. -/
structure Property where
  name : String
  type : Ty
  isStatic : Bool := false
  deriving DecidableEq, Repr

/-- A method, described by its signature. -/
structure Method where
  name : String
  parameters : List Parameter := []
  returnType : Ty := .void
  isStatic : Bool := false
  deriving DecidableEq, Repr

/-- The shape of a named type. -/
structure KnownType where
  typeName : String
  supertypeName : Option String := none
  constructors : List Constructor := []
  properties : List Property := []
  methods : List Method := []
  deriving DecidableEq, Repr

/-- The text of a member name with argument labels: `name(label:label:)`. -/
def selector (name : String) (labels : List String) : String :=
  name ++ "(" ++ String.join (labels.map (· ++ ":")) ++ ")"

namespace Constructor

/-- The labels a call of the constructor has to write. -/
def labels (c : Constructor) : List String := c.parameters.map (·.label)

/-- The types of the parameters, in order. -/
def parameterTypes (c : Constructor) : List Ty := c.parameters.map (·.type)

end Constructor

namespace Method

/-- The labels a call of the method has to write. -/
def labels (m : Method) : List String := m.parameters.map (·.label)

/-- Whether a call with this name and these labels, on a type or on a value, means the method. -/
def accepts (m : Method) (name : String) (labels : List String) (isStatic : Bool) : Bool :=
  m.name == name && m.isStatic == isStatic && m.labels == labels

/-- The type the method is called through. -/
def functionType (m : Method) : Ty := .function (m.parameters.map (·.type)) m.returnType

/-- The text of the method's name and labels. -/
def selector (m : Method) : String := ExprTyping.selector m.name m.labels

end Method

namespace KnownType

/-- The type of the values of this type. -/
def valueType (k : KnownType) : Ty := .named k.typeName

/-- The first property declared here with this name, on the type or on its values. -/
def property? (k : KnownType) (name : String) (isStatic : Bool) : Option Property :=
  k.properties.find? fun p => p.name == name && p.isStatic == isStatic

/-- The first method declared here that the call means. -/
def method? (k : KnownType) (name : String) (labels : List String) (isStatic : Bool) :
    Option Method :=
  k.methods.find? fun m => m.accepts name labels isStatic

/-- The first constructor declared here that takes these labels. -/
def constructor? (k : KnownType) (labels : List String) : Option Constructor :=
  k.constructors.find? fun c => c.labels == labels

end KnownType

end ExprTyping
