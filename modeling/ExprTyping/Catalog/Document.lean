import ExprTyping.Catalog.Basic
import ExprTyping.Known.Json

/-!
# Catalog documents

A document declares several types at once, each name once. `Catalog.extend` registers all of them
or, if the text is no document or declares a name twice, none.
-/

namespace ExprTyping

/-- Why a document cannot be added to a catalog. -/
inductive CatalogError where
  /-- The text is not a catalog document. -/
  | invalidJson
  /-- The document declares this name a second time. -/
  | duplicateType (name : String)
  deriving DecidableEq, Repr

namespace CatalogError

/-- The identifier of the error, for tools. -/
def code : CatalogError → String
  | .invalidJson => "retype::catalog::invalid_json"
  | .duplicateType _ => "retype::catalog::duplicate_type"

/-- What to do about the error. -/
def help? : CatalogError → Option String
  | .invalidJson => some "a catalog document is an object with a `types` array of known types"
  | .duplicateType _ => none

/-- The error in words. -/
def message : CatalogError → String
  | .invalidJson => "invalid catalog document"
  | .duplicateType name => "catalog document declares `" ++ name ++ "` more than once"

end CatalogError

namespace Catalog

/-- Reads the types of a document. -/
def decodeDocument : Json.Decoder (List KnownType)
  | 0, _ => none
  | budget + 1, value => do
    let field ← value.record? ["types"]
    Json.required (Json.decodeList KnownType.decode budget) (field "types")

/-- The types that a document's text declares. -/
def readDocument? (text : String) : Option (List KnownType) :=
  (Json.ofText? text).bind (decodeDocument Json.nestingLimit)

/-- The first name that repeats an earlier one. -/
def firstRepeated? (earlier : List String) : List String → Option String
  | [] => none
  | name :: rest =>
    if name ∈ earlier then some name else firstRepeated? (name :: earlier) rest

/-- Registers the types of a document; the second component is their number. -/
def extend (catalog : Catalog) (text : String) : Except CatalogError (Catalog × Nat) :=
  match readDocument? text with
  | none => .error .invalidJson
  | some types =>
    match firstRepeated? [] (types.map KnownType.typeName) with
    | some name => .error (.duplicateType name)
    | none => .ok (catalog.registerAll types, types.length)

/-- The catalog of a single document. -/
def ofDocument (text : String) : Except CatalogError Catalog :=
  (empty.extend text).map Prod.fst

end Catalog

end ExprTyping
