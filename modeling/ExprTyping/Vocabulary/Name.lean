/-!
# Conventional names

Identifiers with a fixed meaning in the language.
-/

namespace ExprTyping.Name

/-- The label of an argument or parameter that is written without one. -/
def wildcardLabel : String := "_"

/-- The member that stands for its receiver, as in `Type.self`. -/
def selfMember : String := "self"

/-- The member that names a constructor, as in `Type.init(x: 1)`. -/
def initMember : String := "init"

/-- The receiver inside a method body. -/
def selfIdentifier : String := "self"

/-- The receiver inside a method body, seen as its supertype. -/
def superIdentifier : String := "super"

/-- The class a class inherits from when it names no other. -/
def rootClass : String := "NSObject"

end ExprTyping.Name
