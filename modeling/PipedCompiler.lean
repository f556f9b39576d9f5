import PipedCompiler.Bridge.Client
import PipedCompiler.Bridge.Error
import PipedCompiler.Bridge.Request
import PipedCompiler.Bridge.Response
import PipedCompiler.Bridge.Stream
import PipedCompiler.Bridge.Transcript
import PipedCompiler.Cache.Base64Url
import PipedCompiler.Cache.Digest
import PipedCompiler.Cache.Sha256
import PipedCompiler.Cache.Store
import PipedCompiler.CommandLine.Execution
import PipedCompiler.CommandLine.LogFormat
import PipedCompiler.CommandLine.Orders
import PipedCompiler.CommandLine.Switches
import PipedCompiler.Compile.Basic
import PipedCompiler.Compile.Child
import PipedCompiler.Compile.Dialogue
import PipedCompiler.Compile.Host
import PipedCompiler.Compile.Program
import PipedCompiler.Diagnostic.Basic
import PipedCompiler.Diagnostic.Reading
import PipedCompiler.Environment
import PipedCompiler.FileTree
import PipedCompiler.Language.Emitted
import PipedCompiler.Language.Expression
import PipedCompiler.Language.Lexemes
import PipedCompiler.Language.ModulePath
import PipedCompiler.Language.Names
import PipedCompiler.Language.Parser
import PipedCompiler.Language.Pieces
import PipedCompiler.Language.SyntaxTree
import PipedCompiler.Language.Token
import PipedCompiler.Language.Tree
import PipedCompiler.Main
import PipedCompiler.Options
import PipedCompiler.Parent.Rehearsal
import PipedCompiler.Parent.Resolver
import PipedCompiler.Parent.Scripted
import PipedCompiler.Parent.Serving
import PipedCompiler.Proofs.Bridge.Alternation
import PipedCompiler.Proofs.Bridge.Contents
import PipedCompiler.Proofs.Bridge.Frame
import PipedCompiler.Proofs.Bridge.Lines
import PipedCompiler.Proofs.Bridge.RequestLine
import PipedCompiler.Proofs.Bridge.Stream
import PipedCompiler.Proofs.Compile.Depth
import PipedCompiler.Proofs.Compile.Existence
import PipedCompiler.Proofs.Compile.Host
import PipedCompiler.Proofs.Compile.ImportGraph
import PipedCompiler.Proofs.Compile.Loading
import PipedCompiler.Proofs.Compile.Program
import PipedCompiler.Proofs.Compile.References
import PipedCompiler.Proofs.Compile.Requests
import PipedCompiler.Proofs.Compile.Source
import PipedCompiler.Proofs.Compile.Transparency
import PipedCompiler.Proofs.Compile.Verdict
import PipedCompiler.Proofs.Compile.Walk
import PipedCompiler.Proofs.Diagnostic.Pattern
import PipedCompiler.Proofs.Language.Names
import PipedCompiler.Proofs.Parent.Conversation
import PipedCompiler.Proofs.Parent.Lines
import PipedCompiler.Proofs.Parent.Serving
import PipedCompiler.Proofs.Text.Decimal
import PipedCompiler.Proofs.Text.Pattern
import PipedCompiler.Proofs.Text.Utf8
import PipedCompiler.Session.Basic
import PipedCompiler.Session.Error
import PipedCompiler.Settings.Basic
import PipedCompiler.Settings.Loading
import PipedCompiler.Settings.Reading
import PipedCompiler.SourceFile
import PipedCompiler.Table
import PipedCompiler.Text.Blank
import PipedCompiler.Text.CodePoints
import PipedCompiler.Text.Decimal
import PipedCompiler.Text.Duration
import PipedCompiler.Text.JsonValue
import PipedCompiler.Text.Letters
import PipedCompiler.Text.Lines
import PipedCompiler.Text.Numbers
import PipedCompiler.Text.Position
import PipedCompiler.Text.Quoted
import PipedCompiler.Text.Utf8
import PipedCompiler.Toml.Document
import PipedCompiler.Toml.Quoting
import PipedCompiler.Toml.Scalar
import PipedCompiler.Toml.Tables
import PipedCompiler.Toml.Value
import PipedCompiler.Worker.Basic
import PipedCompiler.Worker.Compiler
import PipedCompiler.Worker.Escapes
import PipedCompiler.Worker.Invocation
import PipedCompiler.Worker.Machine
import PipedCompiler.Worker.Script
import PipedCompiler.Worker.Shell
import PipedCompiler.Proofs.Compile.Stages
import PipedCompiler.Proofs.Compile.Memory
import PipedCompiler.Proofs.Language.ModulePath
import PipedCompiler.Proofs.Compile.Sought
import PipedCompiler.Proofs.Compile.Unsendable
import PipedCompiler.Proofs.Bridge.Chunking
import PipedCompiler.Proofs.Cache.Key
import PipedCompiler.Proofs.Compile.Child
import PipedCompiler.Proofs.Compile.Exchanges
import PipedCompiler.Proofs.Compile.Targets
import PipedCompiler.Proofs.Compile.Wording
import PipedCompiler.Proofs.Language.LineEndings
import PipedCompiler.Proofs.Parent.Delivery
import PipedCompiler.Proofs.Parent.Pinning
import PipedCompiler.Proofs.Parent.Presence
import PipedCompiler.Proofs.Parent.Sharing
import PipedCompiler.Proofs.Session.Caching
import PipedCompiler.Proofs.Session.Diagnostics
import PipedCompiler.Proofs.Session.Histories
import PipedCompiler.Proofs.Session.Interleaving
import PipedCompiler.Proofs.Compile.Emission
import PipedCompiler.Proofs.Text.Boundary
import PipedCompiler.Proofs.Language.First
import PipedCompiler.Proofs.Language.Listing
import PipedCompiler.Proofs.Language.Partition
import PipedCompiler.Proofs.Language.Slices
import PipedCompiler.Proofs.Language.NamePlaces
import PipedCompiler.Proofs.Language.Occurrences
import PipedCompiler.Proofs.Text.Position
import PipedCompiler.Proofs.Language.Positions
import PipedCompiler.Proofs.Language.EmittedLines
import PipedCompiler.Proofs.Language.NormalPath
import PipedCompiler.Proofs.Compile.Chains
import PipedCompiler.Proofs.Compile.Canonical
import PipedCompiler.Proofs.Script.Reading
import PipedCompiler.Proofs.Script.Elements
import PipedCompiler.Proofs.Script.Expressions
import PipedCompiler.Proofs.Cache.Base64Url
import PipedCompiler.Proofs.Cache.Separation
import PipedCompiler.Proofs.Cache.Accesses
import PipedCompiler.Proofs.Environment
import PipedCompiler.Proofs.Diagnostic.Stability
import PipedCompiler.Proofs.Language.Progress
