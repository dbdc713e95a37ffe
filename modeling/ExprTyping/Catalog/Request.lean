import ExprTyping.Catalog.Document
import ExprTyping.Intention

/-!
# Requests to a catalog

The calls that may change a catalog, each with its answer. A registration answers with the type it
replaces. A document answers with the number of its types, or with the reason why it cannot be
loaded; then the catalog stays as it is.

`Catalog.after` is the catalog at the end of a history of requests, which starts with none.
-/

namespace ExprTyping.Catalog

/-- A call that may change a catalog. -/
inductive Request where
  | register (k : KnownType)
  | registerIntention (i : Intention)
  | extend (text : String)
  deriving Repr

/-- What a catalog answers to a request. -/
inductive Answer where
  /-- The registered type is in the place of this one. -/
  | replaced (previous : Option KnownType)
  /-- The document was loaded and declares so many types, or it was not loaded. -/
  | extended (outcome : Except CatalogError Nat)

/-- Performs a request. -/
def perform (catalog : Catalog) : Request → Catalog × Answer
  | .register k =>
    let (catalog, previous) := catalog.exchange k
    (catalog, .replaced previous)
  | .registerIntention i =>
    let (catalog, previous) := catalog.exchange i.toKnownType
    (catalog, .replaced previous)
  | .extend text =>
    match catalog.extend text with
    | .ok (catalog, count) => (catalog, .extended (.ok count))
    | .error error => (catalog, .extended (.error error))

/-- The catalog after the requests of a history, the oldest first. -/
def after (history : List Request) : Catalog :=
  history.foldl (fun catalog request => (catalog.perform request).1) empty

end ExprTyping.Catalog
