import DateFields.Config.Load
import DateFields.Expansion.Basic
import DateFields.FileTree.Edit
import DateFields.Node.Document
import DateFields.Node.Printer
import DateFields.TypeTable.Document
import DateFields.Proofs.TypeTable.Growth
import DateFields.Proofs.TypeTable.WellFormed
import DateFields.Proofs.TypeTable.Form
import DateFields.Proofs.TypeTable.Resolution
import DateFields.Proofs.TypeTable.Declarations
import DateFields.Proofs.TypeTable.Members
import DateFields.Proofs.TypeTable.Inheritance
import DateFields.Proofs.TypeTable.Wrapping
import DateFields.Proofs.TypeTable.Discovery
import DateFields.Proofs.TypeTable.Descent
import DateFields.Proofs.TypeTable.NullFree
import DateFields.Proofs.TypeTable.Canonical
import DateFields.Proofs.Text.Nesting
import DateFields.Proofs.Text.Indentation
import DateFields.Proofs.TypeExpr.Spelling
import DateFields.Proofs.TypeExpr.Precedence
import DateFields.Proofs.TypeTable.Spelling
import DateFields.Proofs.TypeTable.Precedence
import DateFields.Proofs.Path.Place
import DateFields.Proofs.Json.Loosened
import DateFields.Proofs.TypeExpr.Document
import DateFields.Proofs.Node.Replies
import DateFields.Proofs.Node.Traversal
import DateFields.Proofs.Node.Spine
import DateFields.Proofs.Node.Seams
import DateFields.Proofs.Node.Grouping
import DateFields.Proofs.Node.Branches
import DateFields.Proofs.Node.Indentation
import DateFields.Proofs.Node.Document
import DateFields.Proofs.Node.ReadBack
import DateFields.Proofs.Text.FreshName
import DateFields.Proofs.Expansion.Derivation
import DateFields.Proofs.Expansion.Output
import DateFields.Proofs.Expansion.Hygiene
import DateFields.Proofs.Expansion.Correspondence
import DateFields.Proofs.Expansion.Idempotence
import DateFields.Proofs.Expansion.Sequence
import DateFields.Proofs.Expansion.Frame
import DateFields.Proofs.Expansion.LoadOrder
import DateFields.Proofs.Expansion.Capture
import DateFields.Proofs.Expansion.Mentions
import DateFields.Proofs.Expansion.Renaming
import DateFields.Proofs.Expansion.DeclarationOrder
import DateFields.Proofs.Expansion.Respelling
import DateFields.Proofs.Json.Literal
import DateFields.Proofs.Path.Normal
import DateFields.Proofs.FileTree.Walk
import DateFields.Proofs.Path.Ancestors
import DateFields.Proofs.Modules.Search
import DateFields.Proofs.FileTree.Identity
import DateFields.Proofs.Config.Settled
import DateFields.Proofs.TypeTable.Bindings
import DateFields.Proofs.TypeTable.Indexed
import DateFields.Proofs.TypeTable.Recorded
