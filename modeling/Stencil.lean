import Stencil.Cache
import Stencil.CommandLine.Command
import Stencil.CommandLine.Run
import Stencil.CommandLine.Words
import Stencil.Decimal.Integer
import Stencil.Decimal.Layout
import Stencil.Decimal.Read
import Stencil.Decimal.Shortest
import Stencil.Digest.Sha1
import Stencil.Document.Basic
import Stencil.Document.Blanks
import Stencil.Document.Piece
import Stencil.Document.Plain
import Stencil.Document.Quoted
import Stencil.Document.Read
import Stencil.Document.Write
import Stencil.Engine
import Stencil.Escaping
import Stencil.Expression.Item
import Stencil.Expression.Param
import Stencil.Expression.Parse
import Stencil.Failure
import Stencil.Fault
import Stencil.Helper.Action
import Stencil.Helper.Builtin
import Stencil.Helper.Registry
import Stencil.Helper.Stock
import Stencil.Loader.Basic
import Stencil.Loader.FileTree
import Stencil.Loader.Glob
import Stencil.Loader.Source
import Stencil.Main
import Stencil.Member
import Stencil.Node.Basic
import Stencil.Node.Equality
import Stencil.Node.Names
import Stencil.Node.OfTokens
import Stencil.Node.Source
import Stencil.Path
import Stencil.Proofs.Agreement
import Stencil.Proofs.Cache.Alike
import Stencil.Proofs.Cache.Answers
import Stencil.Proofs.Cache.Faithful
import Stencil.Proofs.Cache.Gets
import Stencil.Proofs.Cache.Giving
import Stencil.Proofs.Cache.Reloading
import Stencil.Proofs.Cache.Snapshots
import Stencil.Proofs.Expression.Bracketed
import Stencil.Proofs.Expression.Grammar
import Stencil.Proofs.Expression.Mentions
import Stencil.Proofs.Expression.Phrases
import Stencil.Proofs.Harmless
import Stencil.Proofs.Helper.Asking
import Stencil.Proofs.Helper.Blind
import Stencil.Proofs.Helper.BuiltIn
import Stencil.Proofs.Helper.Clauses
import Stencil.Proofs.Helper.Confined
import Stencil.Proofs.Helper.Fresh
import Stencil.Proofs.Helper.Obeying
import Stencil.Proofs.Helper.Serving
import Stencil.Proofs.Loader.Listing
import Stencil.Proofs.Loader.Paths
import Stencil.Proofs.Loader.Sources
import Stencil.Proofs.Node.Alike
import Stencil.Proofs.Node.Binding
import Stencil.Proofs.Node.Blaming
import Stencil.Proofs.Node.Compiling
import Stencil.Proofs.Node.Grammar
import Stencil.Proofs.Node.Listing
import Stencil.Proofs.Node.Places
import Stencil.Proofs.Node.Reading
import Stencil.Proofs.Node.Rereading
import Stencil.Proofs.Node.Within
import Stencil.Proofs.Outcome
import Stencil.Proofs.Render.Appending
import Stencil.Proofs.Render.Aside
import Stencil.Proofs.Render.Balance
import Stencil.Proofs.Render.BareSections
import Stencil.Proofs.Render.Blame
import Stencil.Proofs.Render.BlockParams
import Stencil.Proofs.Render.Calls
import Stencil.Proofs.Render.Complement
import Stencil.Proofs.Render.Composed
import Stencil.Proofs.Render.Determined
import Stencil.Proofs.Render.ElseClause
import Stencil.Proofs.Render.Fragment
import Stencil.Proofs.Render.FrameStack
import Stencil.Proofs.Render.HelperFaults
import Stencil.Proofs.Render.Holding
import Stencil.Proofs.Render.Iterations
import Stencil.Proofs.Render.Keeps
import Stencil.Proofs.Render.LambdaSections
import Stencil.Proofs.Render.Lawful
import Stencil.Proofs.Render.Literals
import Stencil.Proofs.Render.Located
import Stencil.Proofs.Render.Lookup
import Stencil.Proofs.Render.Matching
import Stencil.Proofs.Render.Mirrored
import Stencil.Proofs.Render.Mirroring
import Stencil.Proofs.Render.Nesting
import Stencil.Proofs.Render.OtherLoader
import Stencil.Proofs.Render.Pieces
import Stencil.Proofs.Render.Placement
import Stencil.Proofs.Render.Quiet
import Stencil.Proofs.Render.Regime
import Stencil.Proofs.Render.Registration
import Stencil.Proofs.Render.Reordered
import Stencil.Proofs.Render.Reordering
import Stencil.Proofs.Render.Sections
import Stencil.Proofs.Render.SeedData
import Stencil.Proofs.Render.Stillness
import Stencil.Proofs.Render.Strictness
import Stencil.Proofs.Render.Subrenders
import Stencil.Proofs.Render.Tracing
import Stencil.Proofs.Render.Unfinished
import Stencil.Proofs.Render.View
import Stencil.Proofs.Render.Watched
import Stencil.Proofs.Scope.Bracketed
import Stencil.Proofs.Scope.Climbing
import Stencil.Proofs.Scope.Deeper
import Stencil.Proofs.Scope.Failing
import Stencil.Proofs.Scope.Holding
import Stencil.Proofs.Scope.Layering
import Stencil.Proofs.Scope.Reading
import Stencil.Proofs.Settings.Accepting
import Stencil.Proofs.Settings.Fitting
import Stencil.Proofs.Settings.Json
import Stencil.Proofs.Source.Arguments
import Stencil.Proofs.Source.Expressions
import Stencil.Proofs.Source.Items
import Stencil.Proofs.Source.Normal
import Stencil.Proofs.Source.PlainTags
import Stencil.Proofs.Source.Quoting
import Stencil.Proofs.Source.RoundTrip
import Stencil.Proofs.Source.Tags
import Stencil.Proofs.Source.Tokens
import Stencil.Proofs.Source.Tree
import Stencil.Proofs.Source.Trimming
import Stencil.Proofs.Source.Words
import Stencil.Proofs.Table
import Stencil.Proofs.Token.Inside
import Stencil.Proofs.Token.Layout
import Stencil.Proofs.Token.Lines
import Stencil.Proofs.Token.Lossless
import Stencil.Proofs.Token.Openings
import Stencil.Proofs.Token.Partition
import Stencil.Proofs.Token.Respelled
import Stencil.Proofs.Token.Respelling
import Stencil.Proofs.Token.Standalone
import Stencil.Proofs.Typed.Loading
import Stencil.Proofs.Typed.Records
import Stencil.Proofs.Value.Clean
import Stencil.Proofs.Value.Conversion
import Stencil.Proofs.Value.Passive
import Stencil.Proofs.Value.Still
import Stencil.Render.Context
import Stencil.Render.Evaluate
import Stencil.Render.SideChannel
import Stencil.Render.World
import Stencil.Scope
import Stencil.Session
import Stencil.Settings.Basic
import Stencil.Settings.Engine
import Stencil.Settings.Read
import Stencil.Text.Blank
import Stencil.Text.Digit
import Stencil.Text.Printable
import Stencil.Text.Quoted
import Stencil.Text.Search
import Stencil.Token.Basic
import Stencil.Token.Scan
import Stencil.Token.Trim
import Stencil.Transformer
import Stencil.Typed.Load
import Stencil.Typed.LoadError
import Stencil.Typed.Shape
import Stencil.Value.Basic
import Stencil.Value.Display
import Stencil.Value.Kind
import Stencil.Value.Order
import Stencil.Value.Truth
