import ModuleBundler.Text.Character
import ModuleBundler.Span
import ModuleBundler.Token.Kind
import ModuleBundler.Text.Bytes
import ModuleBundler.Token.Escape
import ModuleBundler.Token.Stream
import ModuleBundler.Tree.Basic
import ModuleBundler.Tree.Names
import ModuleBundler.Tree.Visit
import ModuleBundler.Grammar.Cursor
import ModuleBundler.Token.Number
import ModuleBundler.Tree.Target
import ModuleBundler.Grammar.Function
import ModuleBundler.Grammar.Operator
import ModuleBundler.Grammar.Module
import ModuleBundler.Text.Quoted
import ModuleBundler.Text.Replace
import ModuleBundler.Edit
import ModuleBundler.Path.Logical
import ModuleBundler.Analysis.Module
import ModuleBundler.Path.Set
import ModuleBundler.Transform.Rule
import ModuleBundler.FileTree.Change
import ModuleBundler.Json.Reader
import ModuleBundler.Config
import ModuleBundler.Resolve
import ModuleBundler.Graph.Walk
import ModuleBundler.Bundle.Compilation
import ModuleBundler.Compiler.Watch
import ModuleBundler.CommandLine.Run
import ModuleBundler.Main
import ModuleBundler.Proofs.Graph.Spread
import ModuleBundler.Proofs.Graph.WalkInvariant
import ModuleBundler.Proofs.Graph.Attribution
import ModuleBundler.Proofs.Graph.Order
import ModuleBundler.Proofs.Graph.Loads
import ModuleBundler.Proofs.Analysis.Reference
import ModuleBundler.Proofs.Analysis.Mention
import ModuleBundler.Proofs.Analysis.Sequence
import ModuleBundler.Proofs.Token.Slash
import ModuleBundler.Proofs.Bundle.Chunk
import ModuleBundler.Proofs.Bundle.Conflict
import ModuleBundler.Proofs.Bundle.Loader
import ModuleBundler.Proofs.Analysis.Draft
import ModuleBundler.Proofs.Analysis.Request
import ModuleBundler.Proofs.Analysis.Rewriting
import ModuleBundler.Proofs.Bundle.Texts
import ModuleBundler.Proofs.Compiler.Emission
import ModuleBundler.Proofs.Token.Tiling
import ModuleBundler.Proofs.Token.Reprinted
import ModuleBundler.Proofs.Grammar.Balance
import ModuleBundler.Proofs.Compiler.Rebuild
import ModuleBundler.Proofs.Grammar.Spans
import ModuleBundler.Proofs.Compiler.Course
import ModuleBundler.Proofs.Compiler.Watched
import ModuleBundler.Proofs.Compiler.Shared
import ModuleBundler.Proofs.Compiler.Reports
import ModuleBundler.Proofs.Analysis.Exact
import ModuleBundler.Proofs.Edit.Splice
import ModuleBundler.Proofs.Tree.Regrouping
import ModuleBundler.Proofs.Grammar.Depth
import ModuleBundler.Proofs.Tree.OpenIn
import ModuleBundler.Proofs.Grammar.Narrow
import ModuleBundler.Proofs.Grammar.NarrowExpression
import ModuleBundler.Proofs.Grammar.NarrowStatement
import ModuleBundler.Proofs.Tree.StandsFor
import ModuleBundler.Proofs.Grammar.Destructuring
import ModuleBundler.Proofs.Grammar.Progress
import ModuleBundler.Proofs.Grammar.Climbing
import ModuleBundler.Proofs.Token.Pasted
import ModuleBundler.Proofs.Bundle.Returned
import ModuleBundler.Proofs.Grammar.Blame
import ModuleBundler.Proofs.Grammar.Recovery
import ModuleBundler.Proofs.Token.Escaped
import ModuleBundler.Proofs.Path.Located
import ModuleBundler.Proofs.FileTree.Candidates
import ModuleBundler.Proofs.Bundle.Filenames
import ModuleBundler.Proofs.Token.Numeral
