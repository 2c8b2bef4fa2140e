import GraphQL.Ast.Equality
import GraphQL.Lexer
import GraphQL.Main
import GraphQL.Parser
import GraphQL.Scanner.Iterator
import GraphQL.Schema
import GraphQL.Transformer
import GraphQL.Walk.Context
import GraphQL.Walk.Walker
import GraphQL.Proofs.Extent
import GraphQL.Proofs.Parser.Steps
import GraphQL.Proofs.Sound.Repetition
import GraphQL.Proofs.Sound.Value
import GraphQL.Proofs.Sound.Executable
import GraphQL.Proofs.Sound.TypeSystem
import GraphQL.Proofs.Sound.Document
import GraphQL.Proofs.Scanner.Stream
import GraphQL.Proofs.Parser.Runs
import GraphQL.Proofs.Sound.Program
import GraphQL.Proofs.Origins
import GraphQL.Proofs.Parser.Faces
import GraphQL.Proofs.Complete.Repetition
import GraphQL.Proofs.Complete.Value
import GraphQL.Proofs.Complete.Executable
import GraphQL.Proofs.Complete.TypeSystem
import GraphQL.Proofs.Complete.Document
import GraphQL.Proofs.Scanner.Spaced
import GraphQL.Proofs.Complete.Program
import GraphQL.Proofs.Scanner.Positions
import GraphQL.Proofs.Scanner.Grammar
import GraphQL.Proofs.Walk.Contexts
import GraphQL.Proofs.Walk.Alone
import GraphQL.Proofs.Walk.Moves
import GraphQL.Proofs.Walk.Shared
import GraphQL.Proofs.Walk.Outcomes
import GraphQL.Proofs.Walk.Reuse
import GraphQL.Proofs.Walk.Tours
import GraphQL.Proofs.Walk.Orders
import GraphQL.Proofs.Transformer.Nodes
import GraphQL.Proofs.Walk.Agreement
import GraphQL.Proofs.Scanner.Recognition
import GraphQL.Proofs.Scanner.Splitting
import GraphQL.Proofs.Transformer.Rebuilding
import GraphQL.Proofs.Nesting.Limit
import GraphQL.Proofs.Layout.Sources
import GraphQL.Proofs.Reparsing
import GraphQL.Proofs.Schema.Reading
import GraphQL.Proofs.Walk.Frames
import GraphQL.Proofs.Walk.Restoration
import GraphQL.Proofs.Viable.Misfits
import GraphQL.Proofs.Text.BlockWriting
import GraphQL.Proofs.Snippets
import GraphQL.Proofs.FirstErrors
import GraphQL.Proofs.Scanner.Lookahead
import GraphQL.Proofs.Scanner.Numbers
import GraphQL.Proofs.Text.QuotedValue
import GraphQL.Proofs.Unclosed.Reports
import GraphQL.Proofs.TypeNotation
import GraphQL.Proofs.Walk.Paths
import GraphQL.Proofs.Const.Values
import GraphQL.Proofs.Equality.Structure
import GraphQL.Proofs.Schema.Resolution
import GraphQL.Proofs.Statistics.Totals
import GraphQL.Proofs.Command.Reports
import GraphQL.Proofs.Scanner.Progress
import GraphQL.Proofs.Suggestions
import GraphQL.Proofs.Rations.Endings
import GraphQL.Proofs.Parser.Lexing
import GraphQL.Proofs.Walk.Rounds
