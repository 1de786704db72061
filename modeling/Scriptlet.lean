import Scriptlet.Command.Getopt
import Scriptlet.Command.Listing
import Scriptlet.Command.Options
import Scriptlet.Command.Path
import Scriptlet.Command.Run
import Scriptlet.Command.Style
import Scriptlet.Console.Basic
import Scriptlet.Console.Depth
import Scriptlet.Console.Input
import Scriptlet.Grammar.Fault
import Scriptlet.Grammar.Program
import Scriptlet.Grammar.Segment
import Scriptlet.Grammar.Shape
import Scriptlet.Grammar.Shrink
import Scriptlet.Grammar.Split
import Scriptlet.Grammar.Tree
import Scriptlet.Machine.Basic
import Scriptlet.Machine.Eval
import Scriptlet.Machine.Fault
import Scriptlet.Machine.Frame
import Scriptlet.Machine.Native
import Scriptlet.Machine.Run
import Scriptlet.Machine.Sink
import Scriptlet.Main
import Scriptlet.Node.Basic
import Scriptlet.Node.Outline
import Scriptlet.Node.Text
import Scriptlet.Number.Basic
import Scriptlet.Number.Binary
import Scriptlet.Number.Decimal
import Scriptlet.Position
import Scriptlet.Proofs.AcceptedNesting
import Scriptlet.Proofs.ArithmeticSource
import Scriptlet.Proofs.CallIsolation
import Scriptlet.Proofs.CallStack
import Scriptlet.Proofs.CanonicalDecimal
import Scriptlet.Proofs.CanonicalSpelling
import Scriptlet.Proofs.ChunkJoin
import Scriptlet.Proofs.ClampAccuracy
import Scriptlet.Proofs.CompoundAssignment
import Scriptlet.Proofs.ConcreteSyntax
import Scriptlet.Proofs.ConsoleState
import Scriptlet.Proofs.DecimalValue
import Scriptlet.Proofs.DeclarationPlacement
import Scriptlet.Proofs.DepthLimit
import Scriptlet.Proofs.ErrorOrigin
import Scriptlet.Proofs.ErrorSource
import Scriptlet.Proofs.EvalChange
import Scriptlet.Proofs.EvalFuel
import Scriptlet.Proofs.EvalInduction
import Scriptlet.Proofs.EvalMoments
import Scriptlet.Proofs.EvalSimulation
import Scriptlet.Proofs.EvalTwins
import Scriptlet.Proofs.ExactArithmetic
import Scriptlet.Proofs.FedLines
import Scriptlet.Proofs.FormedProgram
import Scriptlet.Proofs.FunctionTable
import Scriptlet.Proofs.FunctionTwins
import Scriptlet.Proofs.GrammarCuts
import Scriptlet.Proofs.GrammarNesting
import Scriptlet.Proofs.GrammarPlaces
import Scriptlet.Proofs.GrammarReading
import Scriptlet.Proofs.GrammarSegments
import Scriptlet.Proofs.GrammarShapes
import Scriptlet.Proofs.GuardedPrograms
import Scriptlet.Proofs.GuardedReader
import Scriptlet.Proofs.GuardedSegments
import Scriptlet.Proofs.GuardedTrees
import Scriptlet.Proofs.JoinedSource
import Scriptlet.Proofs.LeafOrder
import Scriptlet.Proofs.LiteralReading
import Scriptlet.Proofs.LoopFreeTermination
import Scriptlet.Proofs.NodePlaces
import Scriptlet.Proofs.NumberInvariant
import Scriptlet.Proofs.NumberLaws
import Scriptlet.Proofs.NumberOrder
import Scriptlet.Proofs.NumberValue
import Scriptlet.Proofs.NumberWords
import Scriptlet.Proofs.OpenBlock
import Scriptlet.Proofs.OperatorGrouping
import Scriptlet.Proofs.OptionPlacement
import Scriptlet.Proofs.Outcomes
import Scriptlet.Proofs.OutputTruncation
import Scriptlet.Proofs.ProgramRendering
import Scriptlet.Proofs.QuotedText
import Scriptlet.Proofs.ReaderRun
import Scriptlet.Proofs.ReturnRecord
import Scriptlet.Proofs.ReturnRefinement
import Scriptlet.Proofs.ScopeDiscipline
import Scriptlet.Proofs.ScopeView
import Scriptlet.Proofs.SegmentBounds
import Scriptlet.Proofs.SessionDeclaration
import Scriptlet.Proofs.SessionState
import Scriptlet.Proofs.ShownLine
import Scriptlet.Proofs.SourceSafety
import Scriptlet.Proofs.SourceScan
import Scriptlet.Proofs.StatementJoin
import Scriptlet.Proofs.StatementScan
import Scriptlet.Proofs.StructuredReturn
import Scriptlet.Proofs.TokenBlame
import Scriptlet.Proofs.TokenRendering
import Scriptlet.Proofs.TreePlaces
import Scriptlet.Proofs.TreeText
import Scriptlet.Proofs.ValueDiscipline
import Scriptlet.Text.Blank
import Scriptlet.Text.Lines
import Scriptlet.Text.Octets
import Scriptlet.Text.Printable
import Scriptlet.Text.Quoted
import Scriptlet.Token.Basic
import Scriptlet.Token.Fault
import Scriptlet.Token.Reader
import Scriptlet.Token.Scan
import Scriptlet.Value
import Scriptlet.Yaml.Document
import Scriptlet.Yaml.Resolve
import Scriptlet.Yaml.Scalar
