import CodeCatalog.Action
import CodeCatalog.Backoff
import CodeCatalog.Chunk.Checked
import CodeCatalog.Chunk.Merge
import CodeCatalog.Chunk.Split
import CodeCatalog.Command
import CodeCatalog.Command.Arguments
import CodeCatalog.Command.Form
import CodeCatalog.Command.Help
import CodeCatalog.Config
import CodeCatalog.Console
import CodeCatalog.Double
import CodeCatalog.Double.Shortest
import CodeCatalog.Embedding.Batch
import CodeCatalog.Embedding.Embedder
import CodeCatalog.Embedding.Fill
import CodeCatalog.Embedding.Service
import CodeCatalog.Embedding.Token
import CodeCatalog.Entity
import CodeCatalog.Entity.Fragment
import CodeCatalog.Entity.Record
import CodeCatalog.Extraction
import CodeCatalog.Extraction.File
import CodeCatalog.Fault
import CodeCatalog.Grammar
import CodeCatalog.Grammar.Python
import CodeCatalog.Grammar.Rust
import CodeCatalog.Grammar.Script
import CodeCatalog.Grammar.Supported
import CodeCatalog.Granularity
import CodeCatalog.Indexing
import CodeCatalog.Main
import CodeCatalog.Path
import CodeCatalog.Proofs.Backoff
import CodeCatalog.Proofs.Backoff.Budget
import CodeCatalog.Proofs.Backoff.Exhaustion
import CodeCatalog.Proofs.Chunk.Checked
import CodeCatalog.Proofs.Chunk.Closed
import CodeCatalog.Proofs.Chunk.Cut
import CodeCatalog.Proofs.Chunk.Fewest
import CodeCatalog.Proofs.Chunk.File
import CodeCatalog.Proofs.Chunk.Group
import CodeCatalog.Proofs.Chunk.Merge
import CodeCatalog.Proofs.Chunk.Packing
import CodeCatalog.Proofs.Chunk.Range
import CodeCatalog.Proofs.Chunk.Size
import CodeCatalog.Proofs.Chunk.Split
import CodeCatalog.Proofs.Command.Form
import CodeCatalog.Proofs.Embedding.Apart
import CodeCatalog.Proofs.Embedding.Fill
import CodeCatalog.Proofs.Embedding.InPlace
import CodeCatalog.Proofs.Embedding.Interleaving
import CodeCatalog.Proofs.Embedding.Permits
import CodeCatalog.Proofs.Embedding.Refill
import CodeCatalog.Proofs.Embedding.Reply
import CodeCatalog.Proofs.Embedding.Token
import CodeCatalog.Proofs.Embedding.Turns
import CodeCatalog.Proofs.Entity.Payload
import CodeCatalog.Proofs.Entity.Reading
import CodeCatalog.Proofs.Extraction.Coverage
import CodeCatalog.Proofs.Extraction.Docs
import CodeCatalog.Proofs.Extraction.Kind
import CodeCatalog.Proofs.Extraction.LineOrder
import CodeCatalog.Proofs.Extraction.Lines
import CodeCatalog.Proofs.Extraction.Literal
import CodeCatalog.Proofs.Extraction.Markup
import CodeCatalog.Proofs.Extraction.Naming
import CodeCatalog.Proofs.Extraction.Nesting
import CodeCatalog.Proofs.Extraction.Preorder
import CodeCatalog.Proofs.Extraction.Row
import CodeCatalog.Proofs.Extraction.Scoping
import CodeCatalog.Proofs.Extraction.Site
import CodeCatalog.Proofs.Extraction.Snippet
import CodeCatalog.Proofs.Extraction.TextRows
import CodeCatalog.Proofs.Extraction.Trailing
import CodeCatalog.Proofs.Extraction.Visited
import CodeCatalog.Proofs.Extraction.Walk
import CodeCatalog.Proofs.Indexing
import CodeCatalog.Proofs.Lists
import CodeCatalog.Proofs.Querying
import CodeCatalog.Proofs.Request.Extensions
import CodeCatalog.Proofs.Settings.Precedence
import CodeCatalog.Proofs.Store.Calls
import CodeCatalog.Proofs.Store.Ledger
import CodeCatalog.Proofs.Store.Ranking
import CodeCatalog.Proofs.Store.Retrieval
import CodeCatalog.Proofs.Store.Server
import CodeCatalog.Proofs.Store.Upsert
import CodeCatalog.Proofs.Survey
import CodeCatalog.Proofs.Survey.Dispatch
import CodeCatalog.Proofs.Text.ByteLines
import CodeCatalog.Proofs.Text.Case
import CodeCatalog.Proofs.Text.Distinct
import CodeCatalog.Proofs.Text.Lines
import CodeCatalog.Proofs.Text.Order
import CodeCatalog.Proofs.Text.Utf8
import CodeCatalog.Proofs.Unembedded
import CodeCatalog.Proofs.Value.Closing
import CodeCatalog.Proofs.Value.Document
import CodeCatalog.Proofs.Value.Written
import CodeCatalog.Proofs.Workspace.Discovery
import CodeCatalog.Proofs.Workspace.IndexFile
import CodeCatalog.Proofs.Workspace.Opening
import CodeCatalog.Proofs.Workspace.Overwriting
import CodeCatalog.Proofs.Workspace.Put
import CodeCatalog.Proofs.Workspace.RoundTrip
import CodeCatalog.Proofs.Workspace.Suffix
import CodeCatalog.Proofs.Workspace.Tree
import CodeCatalog.Proofs.Workspace.Walk
import CodeCatalog.Request
import CodeCatalog.Retrieval
import CodeCatalog.Store
import CodeCatalog.Store.Ranking
import CodeCatalog.Store.Server
import CodeCatalog.Surroundings
import CodeCatalog.Survey
import CodeCatalog.Text
import CodeCatalog.Text.Blank
import CodeCatalog.Text.Case
import CodeCatalog.Text.Digit
import CodeCatalog.Text.Indent
import CodeCatalog.Text.Numeral
import CodeCatalog.Text.Printable
import CodeCatalog.Text.Quoted
import CodeCatalog.Text.Utf8
import CodeCatalog.Tree
import CodeCatalog.Value
import CodeCatalog.Value.Bound
import CodeCatalog.Value.Key
import CodeCatalog.Value.Printer
import CodeCatalog.Value.Reader
import CodeCatalog.Workspace
import CodeCatalog.Workspace.Discovery
import CodeCatalog.Workspace.IndexFile
