import PolyQuery.Adapter
import PolyQuery.Adapter.Bind
import PolyQuery.Adapter.Builtin
import PolyQuery.Adapter.Decode
import PolyQuery.Adapter.Registry
import PolyQuery.Builder
import PolyQuery.Builder.Any
import PolyQuery.Builder.Combined
import PolyQuery.Builder.Traversal
import PolyQuery.Calendar
import PolyQuery.Calendar.Reading
import PolyQuery.Calendar.Token
import PolyQuery.Capability
import PolyQuery.Client
import PolyQuery.Config
import PolyQuery.Description
import PolyQuery.Description.Call
import PolyQuery.Description.Dialect
import PolyQuery.Description.Expr
import PolyQuery.Description.Log
import PolyQuery.Description.Operation
import PolyQuery.Description.Query
import PolyQuery.Description.Schema
import PolyQuery.Dialect
import PolyQuery.Dialect.Backend
import PolyQuery.Dialect.Features
import PolyQuery.Dialect.Function
import PolyQuery.Dialect.Reflect
import PolyQuery.Dialect.Reserved
import PolyQuery.Error
import PolyQuery.Expr
import PolyQuery.Expr.Build
import PolyQuery.Expr.Reflect
import PolyQuery.FileConnection
import PolyQuery.Json
import PolyQuery.Log
import PolyQuery.Model
import PolyQuery.Model.Condition
import PolyQuery.Model.Reflect
import PolyQuery.Naming
import PolyQuery.Number
import PolyQuery.Number.Literal
import PolyQuery.Number.Text
import PolyQuery.Operand
import PolyQuery.Plan.Arity
import PolyQuery.Plan.Validate
import PolyQuery.Proofs.Rendering
import PolyQuery.Relation.Key
import PolyQuery.Relation.LoadPlan
import PolyQuery.Relation.LoadTree
import PolyQuery.Relation.Loader
import PolyQuery.Representation
import PolyQuery.Session
import PolyQuery.Session.Ending
import PolyQuery.Session.Fetch
import PolyQuery.Session.Pool
import PolyQuery.Sql.Compile
import PolyQuery.Sql.Fragment
import PolyQuery.Sql.Gate
import PolyQuery.Sql.Paging
import PolyQuery.Sql.Precedence
import PolyQuery.Sql.Raw
import PolyQuery.Store
import PolyQuery.Store.View
import PolyQuery.Table
import PolyQuery.Text.Base64
import PolyQuery.Text.Blank
import PolyQuery.Text.CaseContext
import PolyQuery.Text.CaseTable
import PolyQuery.Text.Letters
import PolyQuery.Text.Units
import PolyQuery.Text.Utf8
import PolyQuery.Text.Uuid
import PolyQuery.Transaction
import PolyQuery.Value
import PolyQuery.Version
import PolyQuery.Proofs.Fragment
import PolyQuery.Proofs.Composition
import PolyQuery.Proofs.Parameters
import PolyQuery.Proofs.Alignment
import PolyQuery.Proofs.Blank
import PolyQuery.Proofs.ValuesApart
import PolyQuery.Proofs.Steady
import PolyQuery.Proofs.Grammar
import PolyQuery.Proofs.Reading
import PolyQuery.Proofs.Spelling
import PolyQuery.Proofs.Outline
import PolyQuery.Proofs.SetReading
import PolyQuery.Proofs.Contained
import PolyQuery.Proofs.Selection
import PolyQuery.Proofs.Paged
import PolyQuery.Proofs.Clauses
import PolyQuery.Proofs.Leaf
import PolyQuery.Proofs.Combination
import PolyQuery.Proofs.SetRoundTrip
import PolyQuery.Proofs.Phrase
import PolyQuery.Proofs.Demand
import PolyQuery.Proofs.Gate
import PolyQuery.Proofs.Validity
import PolyQuery.Proofs.Refusal
import PolyQuery.Proofs.Portable
import PolyQuery.Proofs.Upgrade
import PolyQuery.Proofs.Action
import PolyQuery.Proofs.Dialogue
import PolyQuery.Proofs.Protocol
import PolyQuery.Proofs.Forest
import PolyQuery.Proofs.RequestOrder
import PolyQuery.Proofs.Looking
import PolyQuery.Proofs.Slots
import PolyQuery.Proofs.Attachment
import PolyQuery.Proofs.LoadOrder
import PolyQuery.Proofs.ParentKeys
import PolyQuery.Proofs.Batches
import PolyQuery.Proofs.Naming
import PolyQuery.Proofs.Conversion
import PolyQuery.Proofs.Dealings
import PolyQuery.Proofs.Conclusion
import PolyQuery.Proofs.Overlap
import PolyQuery.Proofs.History
import PolyQuery.Proofs.Registration
import PolyQuery.Proofs.Resolution
import PolyQuery.Proofs.NumberOrder
import PolyQuery.Proofs.SlotHistory
import PolyQuery.Proofs.Evaluation
import PolyQuery.Proofs.Mentions
import PolyQuery.Proofs.TreeWalk
import PolyQuery.Proofs.CallTexts
import PolyQuery.Proofs.Onward
import PolyQuery.Proofs.Passage
import PolyQuery.Proofs.Loading
import PolyQuery.Proofs.Cancellation
import PolyQuery.Proofs.Twin
import PolyQuery.Proofs.Unsent
import PolyQuery.Proofs.Quoting
import PolyQuery.Proofs.Spot
import PolyQuery.Proofs.Brackets
import PolyQuery.Proofs.Unbracketed
import PolyQuery.Proofs.Aliases
import PolyQuery.Proofs.Comments
import PolyQuery.Proofs.Signs
import PolyQuery.Proofs.Series
import PolyQuery.Proofs.Exposed
import PolyQuery.Proofs.Places
import PolyQuery.Proofs.Operands
import PolyQuery.Proofs.Membership
import PolyQuery.Proofs.Bounds
import PolyQuery.Proofs.Pages
import PolyQuery.Proofs.Windows
import PolyQuery.Proofs.Widths
import PolyQuery.Proofs.Splicing
import PolyQuery.Proofs.Answers
import PolyQuery.Proofs.Counted
import PolyQuery.Proofs.Terminals
import PolyQuery.Proofs.Existence
import PolyQuery.Proofs.Sending
import PolyQuery.Proofs.Narrowing
import PolyQuery.Proofs.Assigning
import PolyQuery.Proofs.Cells
import PolyQuery.Proofs.Replies
import PolyQuery.Proofs.Rereading
import PolyQuery.Proofs.Alternatives
import PolyQuery.Proofs.Calls
import PolyQuery.Proofs.Conjuncts
import PolyQuery.Proofs.Confinement
import PolyQuery.Proofs.SlotPaths
import PolyQuery.Proofs.Trie
import PolyQuery.Proofs.Columns
import PolyQuery.Proofs.Families
import PolyQuery.Proofs.Listed
import PolyQuery.Proofs.Detachment
import PolyQuery.Proofs.Visibility
import PolyQuery.Proofs.Inverses
import PolyQuery.Proofs.Spared
import PolyQuery.Proofs.Beside
import PolyQuery.Proofs.OnDemand
import PolyQuery.Proofs.Civil
import PolyQuery.Proofs.MatchKeys
import PolyQuery.Proofs.Correspondence
import PolyQuery.Proofs.Undeclared
import PolyQuery.Proofs.Digits
import PolyQuery.Proofs.Instants
import PolyQuery.Proofs.Encodings
import PolyQuery.Proofs.Storage
import PolyQuery.Proofs.Integers
import PolyQuery.Proofs.Additions
import PolyQuery.Proofs.VersionText
import PolyQuery.Proofs.Quotients
import PolyQuery.Proofs.VersionOrder
import PolyQuery.Proofs.Crossings
import PolyQuery.Proofs.WholeNumbers
import PolyQuery.Proofs.BitNames
import PolyQuery.Proofs.Numerals
import PolyQuery.Proofs.Nesting
import PolyQuery.Proofs.Views
