import Colloquy.Check.Basic
import Colloquy.Check.Rule
import Colloquy.Command.Check
import Colloquy.Command.Console
import Colloquy.Command.Flag
import Colloquy.Command.Program
import Colloquy.Command.Serve
import Colloquy.Command.Version
import Colloquy.Config.Discovery
import Colloquy.Config.Entity
import Colloquy.Config.Layer
import Colloquy.Config.Resolution
import Colloquy.Config.Settings
import Colloquy.Config.Spec
import Colloquy.Diagnostic.Bag
import Colloquy.Diagnostic.Basic
import Colloquy.Document.Basic
import Colloquy.Document.Block
import Colloquy.Document.Inline
import Colloquy.Document.Line
import Colloquy.Document.Node
import Colloquy.Expansion
import Colloquy.Host.Environment
import Colloquy.Host.EnvironmentFile
import Colloquy.Host.FileSet
import Colloquy.Host.FileTree
import Colloquy.Host.Glob
import Colloquy.Host.Path
import Colloquy.Json.Basic
import Colloquy.Json.Decode
import Colloquy.Json.Parse
import Colloquy.Main
import Colloquy.Model.Listing
import Colloquy.Model.Page
import Colloquy.Model.Registry
import Colloquy.Model.Resource
import Colloquy.Outline.Basic
import Colloquy.Outline.Builtin
import Colloquy.Outline.Cache
import Colloquy.Outline.Query
import Colloquy.Preview.Block
import Colloquy.Preview.Element
import Colloquy.Preview.Fence
import Colloquy.Preview.Link
import Colloquy.Preview.Target
import Colloquy.Proofs.Check.Fence
import Colloquy.Proofs.Check.Inheritance
import Colloquy.Proofs.Check.Location
import Colloquy.Proofs.Check.Name
import Colloquy.Proofs.Check.Rule
import Colloquy.Proofs.Check.Verdict
import Colloquy.Proofs.Command.Check
import Colloquy.Proofs.Config.Declaration
import Colloquy.Proofs.Config.Discovery
import Colloquy.Proofs.Config.Layer
import Colloquy.Proofs.Config.Location
import Colloquy.Proofs.Config.Lookup
import Colloquy.Proofs.Config.Merge
import Colloquy.Proofs.Config.Resolution
import Colloquy.Proofs.Diagnostic.Bag
import Colloquy.Proofs.Document.Block
import Colloquy.Proofs.Document.Boundary
import Colloquy.Proofs.Document.Contents
import Colloquy.Proofs.Document.Continuation
import Colloquy.Proofs.Document.Exchange
import Colloquy.Proofs.Document.Fence
import Colloquy.Proofs.Document.Forest
import Colloquy.Proofs.Document.Header
import Colloquy.Proofs.Document.Inline
import Colloquy.Proofs.Document.Line
import Colloquy.Proofs.Document.LineEnding
import Colloquy.Proofs.Document.Literal
import Colloquy.Proofs.Document.Matching
import Colloquy.Proofs.Document.Nesting
import Colloquy.Proofs.Document.Paragraph
import Colloquy.Proofs.Document.Place
import Colloquy.Proofs.Document.Relocation
import Colloquy.Proofs.Document.Route
import Colloquy.Proofs.Document.Stretch
import Colloquy.Proofs.Expansion.Body
import Colloquy.Proofs.Expansion.Composition
import Colloquy.Proofs.Expansion.Contents
import Colloquy.Proofs.Expansion.Depth
import Colloquy.Proofs.Expansion.Preview
import Colloquy.Proofs.Expansion.Recursion
import Colloquy.Proofs.Host.Directory
import Colloquy.Proofs.Host.Path
import Colloquy.Proofs.Json.Decode
import Colloquy.Proofs.Model.Loading
import Colloquy.Proofs.Model.Paging
import Colloquy.Proofs.Model.Traffic
import Colloquy.Proofs.Outline.Boundary
import Colloquy.Proofs.Outline.Bracket
import Colloquy.Proofs.Outline.Cache
import Colloquy.Proofs.Outline.Destination
import Colloquy.Proofs.Outline.Inner
import Colloquy.Proofs.Outline.Query
import Colloquy.Proofs.Outline.Replacement
import Colloquy.Proofs.Outline.Tree
import Colloquy.Proofs.Outline.Turn
import Colloquy.Proofs.Preview.Block
import Colloquy.Proofs.Preview.Excerpt
import Colloquy.Proofs.Preview.Fence
import Colloquy.Proofs.Preview.Target
import Colloquy.Proofs.Report.Path
import Colloquy.Proofs.Report.Snippet
import Colloquy.Proofs.Search
import Colloquy.Proofs.Server.Address
import Colloquy.Proofs.Server.Coherence
import Colloquy.Proofs.Server.Editing
import Colloquy.Proofs.Server.Event
import Colloquy.Proofs.Server.Findings
import Colloquy.Proofs.Server.Framing
import Colloquy.Proofs.Server.Handling
import Colloquy.Proofs.Server.Hover
import Colloquy.Proofs.Server.Interleaving
import Colloquy.Proofs.Server.MinimalHeader
import Colloquy.Proofs.Server.Notice
import Colloquy.Proofs.Server.Publishing
import Colloquy.Proofs.Server.Replies
import Colloquy.Proofs.Server.Settings
import Colloquy.Proofs.Server.Stopping
import Colloquy.Proofs.Server.Stream
import Colloquy.Proofs.Server.Suggestion
import Colloquy.Proofs.Server.Sweep
import Colloquy.Proofs.Server.Symbol
import Colloquy.Proofs.Server.Synchronization
import Colloquy.Proofs.Server.Visibility
import Colloquy.Proofs.Text.Boundary
import Colloquy.Proofs.Text.Bytes
import Colloquy.Proofs.Text.LineEnding
import Colloquy.Proofs.Text.LineIndex
import Colloquy.Proofs.Text.LineTable
import Colloquy.Proofs.Text.Order
import Colloquy.Proofs.Text.Position
import Colloquy.Proofs.Text.RoundTrip
import Colloquy.Proofs.Text.Rune
import Colloquy.Proofs.Text.Space
import Colloquy.Proofs.Text.Utf16
import Colloquy.Proofs.Text.Width
import Colloquy.Proofs.Trace.Stream
import Colloquy.Proofs.Web.Escape
import Colloquy.Release
import Colloquy.Report.Basic
import Colloquy.Report.Data
import Colloquy.Report.Pretty
import Colloquy.Report.Style
import Colloquy.Search
import Colloquy.Server.Action
import Colloquy.Server.Basic
import Colloquy.Server.Change
import Colloquy.Server.Definition
import Colloquy.Server.Dispatch
import Colloquy.Server.Findings
import Colloquy.Server.Frame
import Colloquy.Server.Hover
import Colloquy.Server.Message
import Colloquy.Server.Overlay
import Colloquy.Server.Symbol
import Colloquy.Server.Uri
import Colloquy.Server.View
import Colloquy.Server.Wire
import Colloquy.Suggestion
import Colloquy.Table
import Colloquy.Text.Base64
import Colloquy.Text.Bytes
import Colloquy.Text.Case
import Colloquy.Text.Decimal
import Colloquy.Text.Grapheme
import Colloquy.Text.LineIndex
import Colloquy.Text.Position
import Colloquy.Text.Printable
import Colloquy.Text.Quoted
import Colloquy.Text.Rune
import Colloquy.Text.Space
import Colloquy.Text.Span
import Colloquy.Text.Width
import Colloquy.Time.Moment
import Colloquy.Time.Timing
import Colloquy.Time.Written
import Colloquy.Toml.Document
import Colloquy.Toml.Number
import Colloquy.Toml.Statement
import Colloquy.Trace.Event
import Colloquy.Trace.Tracer
import Colloquy.Web.Escape
import Colloquy.Web.Url
import Colloquy.Word
import Colloquy.Xml.Name
import Colloquy.Xml.Node
import Colloquy.Yaml.Characters
import Colloquy.Yaml.Comment
import Colloquy.Yaml.Cursor
import Colloquy.Yaml.Fault
import Colloquy.Yaml.Lexer
import Colloquy.Yaml.Parse
import Colloquy.Yaml.Scalar
import Colloquy.Yaml.Tag
import Colloquy.Yaml.Token
