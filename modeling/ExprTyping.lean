import ExprTyping.Catalog.Document
import ExprTyping.Catalog.Foundation
import ExprTyping.Catalog.Request
import ExprTyping.Intention
import ExprTyping.Json.Writer
import ExprTyping.Tree.Edit
import ExprTyping.Typing.Resolver
import ExprTyping.Proofs.Resolution.Scoping
import ExprTyping.Proofs.Resolution.History
import ExprTyping.Proofs.Resolution.Incremental
import ExprTyping.Proofs.Resolution.Contagion
import ExprTyping.Proofs.Resolution.Silence
import ExprTyping.Proofs.Resolution.Reports
import ExprTyping.Proofs.Resolution.Idempotence
import ExprTyping.Proofs.Resolution.OnDemand
import ExprTyping.Proofs.Resolution.Rewriting
import ExprTyping.Proofs.Edit.Acyclicity
import ExprTyping.Proofs.Edit.Forest
import ExprTyping.Proofs.Resolution.Frame
import ExprTyping.Proofs.Edit.Splice
import ExprTyping.Proofs.Catalog.Contents
import ExprTyping.Proofs.Catalog.Lineage
import ExprTyping.Proofs.Json.RoundTrip
import ExprTyping.Proofs.Resolution.Extension
import ExprTyping.Proofs.Resolution.Chaining
import ExprTyping.Proofs.Resolution.Calls
import ExprTyping.Proofs.Resolution.Construction
import ExprTyping.Proofs.Edit.Failure
import ExprTyping.Proofs.Resolution.Subscripts
import ExprTyping.Proofs.Catalog.Inheritance
import ExprTyping.Proofs.Arena.Traversal
import ExprTyping.Proofs.Resolution.Coalescing
import ExprTyping.Proofs.Ty.Reading
import ExprTyping.Proofs.Resolution.ImplicitMembers
import ExprTyping.Proofs.Syntax.Children
import ExprTyping.Proofs.Edit.Undo
