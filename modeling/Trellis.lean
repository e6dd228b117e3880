import Trellis.Cache
import Trellis.CommandLine
import Trellis.Datum
import Trellis.Decimal.Binary64
import Trellis.Decimal.Reading
import Trellis.Decimal.Shortest
import Trellis.Document.Fault
import Trellis.Document.Inheritance
import Trellis.Document.Literal
import Trellis.Document.Node
import Trellis.Document.Outline
import Trellis.Document.Reader
import Trellis.Document.Reference
import Trellis.Document.Resolution
import Trellis.Document.Statement
import Trellis.Engine
import Trellis.Error
import Trellis.Expr.Arithmetic
import Trellis.Expr.Basic
import Trellis.Expr.Builtin
import Trellis.Expr.Cache
import Trellis.Expr.Client
import Trellis.Expr.Eval
import Trellis.Expr.Print
import Trellis.Expr.Reader
import Trellis.Expr.Token
import Trellis.Expression
import Trellis.Filter
import Trellis.Loader.Basic
import Trellis.Loader.Directory
import Trellis.Loader.FileTree
import Trellis.Loader.Memory
import Trellis.Loader.Versioned
import Trellis.Main
import Trellis.Markup.Doctype
import Trellis.Markup.Element
import Trellis.Markup.Escape
import Trellis.Markup.Mode
import Trellis.Options
import Trellis.Proofs.AttributeValue
import Trellis.Proofs.Cache
import Trellis.Proofs.Chain
import Trellis.Proofs.Consumption
import Trellis.Proofs.Cursor
import Trellis.Proofs.Escaping
import Trellis.Proofs.Faults
import Trellis.Proofs.Indentation
import Trellis.Proofs.LateBlocks
import Trellis.Proofs.Levels
import Trellis.Proofs.Marks
import Trellis.Proofs.Memory
import Trellis.Proofs.Merging
import Trellis.Proofs.Nesting
import Trellis.Proofs.Outline
import Trellis.Proofs.Phases
import Trellis.Proofs.Places
import Trellis.Proofs.Reading
import Trellis.Proofs.Reference
import Trellis.Proofs.Resolution
import Trellis.Proofs.Session
import Trellis.Proofs.Steps
import Trellis.Proofs.Streaming
import Trellis.Proofs.TagNames
import Trellis.Proofs.TwoRuns
import Trellis.Render.Arguments
import Trellis.Render.Attributes
import Trellis.Render.CallStack
import Trellis.Render.Fault
import Trellis.Render.Handled
import Trellis.Render.Loop
import Trellis.Render.Nodes
import Trellis.Render.Scope
import Trellis.Render.Sink
import Trellis.Render.State
import Trellis.Source.Bracket
import Trellis.Source.Fault
import Trellis.Source.Layout
import Trellis.Source.Line
import Trellis.Source.Token
import Trellis.Table
import Trellis.Template
import Trellis.Text.Blank
import Trellis.Text.Case
import Trellis.Text.CaseTable
import Trellis.Text.Fingerprint
import Trellis.Text.Path
import Trellis.Text.PrintableTable
import Trellis.Text.Quoted
import Trellis.Text.Search
import Trellis.Text.Utf8
import Trellis.Value
import Trellis.Proofs.Coherence
import Trellis.Proofs.Recency
import Trellis.Proofs.Machine
import Trellis.Proofs.Frames
import Trellis.Proofs.Discipline
import Trellis.Proofs.Halting
import Trellis.Proofs.Requests
import Trellis.Proofs.Cycles
import Trellis.Proofs.LineEnds
import Trellis.Proofs.Locality
import Trellis.Proofs.Placement
import Trellis.Proofs.Scanning
import Trellis.Proofs.Pasting
import Trellis.Proofs.Splicing
import Trellis.Proofs.Coinciding
import Trellis.Proofs.Inclusion
import Trellis.Proofs.Transclusion
import Trellis.Proofs.Renderings
import Trellis.Proofs.PrettyPrinting
import Trellis.Proofs.Derivation
import Trellis.Proofs.Lexing
import Trellis.Proofs.Printing
import Trellis.Proofs.Brackets
import Trellis.Proofs.Lists
import Trellis.Proofs.Embedding
import Trellis.Proofs.Sharing
import Trellis.Proofs.Handling
import Trellis.Proofs.Confinement
import Trellis.Proofs.Verbatim
import Trellis.Proofs.QuotedValue
import Trellis.Proofs.Silence
import Trellis.Proofs.Laying
import Trellis.Proofs.Comments
import Trellis.Proofs.Undefined
import Trellis.Proofs.DoubleOrder
import Trellis.Proofs.Mirroring
import Trellis.Proofs.Rounding
import Trellis.Proofs.NearestDouble
import Trellis.Proofs.WholeOrder
import Trellis.Proofs.Written
import Trellis.Proofs.Reporting
import Trellis.Proofs.Misreading
import Trellis.Proofs.WholeArithmetic
import Trellis.Proofs.Leading
import Trellis.Proofs.Numerals
import Trellis.Proofs.Accessors
import Trellis.Proofs.LoopNames
import Trellis.Proofs.OpenTags
import Trellis.Proofs.Pairing
import Trellis.Proofs.ListStarts
import Trellis.Proofs.ListEnds
import Trellis.Proofs.TagWords
import Trellis.Proofs.Openings
import Trellis.Proofs.ClosingTags
import Trellis.Proofs.VoidElements
import Trellis.Proofs.Calls
import Trellis.Proofs.PassThrough
import Trellis.Proofs.Binding
import Trellis.Proofs.OwnFrame
import Trellis.Proofs.Invocation
import Trellis.Proofs.Iterations
import Trellis.Proofs.Leaves
import Trellis.Proofs.RawBlocks
import Trellis.Proofs.Searching
import Trellis.Proofs.FileTrees
import Trellis.Proofs.Listing
import Trellis.Proofs.Reindentation
import Trellis.Proofs.TagHeads
import Trellis.Proofs.InnerLevels
import Trellis.Proofs.Expansion
import Trellis.Proofs.StringLiterals
import Trellis.Proofs.Conversion
import Trellis.Proofs.Precompiling
import Trellis.Proofs.Loops
import Trellis.Proofs.AttributeLoop
import Trellis.Proofs.Passing
import Trellis.Proofs.LineUses
import Trellis.Proofs.Joining
