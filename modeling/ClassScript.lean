import ClassScript.Command.Basic
import ClassScript.Command.Files
import ClassScript.Command.Options
import ClassScript.Command.Session
import ClassScript.Command.Shell
import ClassScript.Diagnostic
import ClassScript.Environment
import ClassScript.Evaluation.Calls
import ClassScript.Evaluation.Classes
import ClassScript.Evaluation.Expressions
import ClassScript.Evaluation.Fault
import ClassScript.Evaluation.HostMethod
import ClassScript.Evaluation.Interpreter
import ClassScript.Evaluation.Machine
import ClassScript.Evaluation.Markup
import ClassScript.Evaluation.Statements
import ClassScript.Grammar.Basic
import ClassScript.Grammar.Declarations
import ClassScript.Grammar.Expressions
import ClassScript.Grammar.Markup
import ClassScript.Grammar.Program
import ClassScript.Grammar.Statements
import ClassScript.Main
import ClassScript.Markup.Node
import ClassScript.Modules.Assembly
import ClassScript.Modules.Loader
import ClassScript.Modules.Path
import ClassScript.Modules.Resolve
import ClassScript.Modules.Workspace
import ClassScript.Number.Arithmetic
import ClassScript.Number.Binary
import ClassScript.Number.Layout
import ClassScript.Number.Read
import ClassScript.Number.Shortest
import ClassScript.Project.Basic
import ClassScript.Proofs.Acceptance
import ClassScript.Proofs.Agreement
import ClassScript.Proofs.Ancestry
import ClassScript.Proofs.ArrayLists
import ClassScript.Proofs.Attribution
import ClassScript.Proofs.Bare
import ClassScript.Proofs.BareStates
import ClassScript.Proofs.BraceCounting
import ClassScript.Proofs.Building
import ClassScript.Proofs.Caching
import ClassScript.Proofs.CallDepth
import ClassScript.Proofs.Cancellation
import ClassScript.Proofs.ClassTable
import ClassScript.Proofs.Clear
import ClassScript.Proofs.Completion
import ClassScript.Proofs.Conduct
import ClassScript.Proofs.Conducted
import ClassScript.Proofs.Confined
import ClassScript.Proofs.ConfinedCode
import ClassScript.Proofs.ConfinedPhases
import ClassScript.Proofs.Constructs
import ClassScript.Proofs.Continuations
import ClassScript.Proofs.Covering
import ClassScript.Proofs.CyclicInheritance
import ClassScript.Proofs.DeclarationOrder
import ClassScript.Proofs.Dispatch
import ClassScript.Proofs.EchoedGrammar
import ClassScript.Proofs.EchoedStatements
import ClassScript.Proofs.Echoes
import ClassScript.Proofs.Encoding
import ClassScript.Proofs.Endings
import ClassScript.Proofs.EntryPoint
import ClassScript.Proofs.Equality
import ClassScript.Proofs.ExactNumbers
import ClassScript.Proofs.Excerpts
import ClassScript.Proofs.ExpressionSpans
import ClassScript.Proofs.Extensions
import ClassScript.Proofs.Extents
import ClassScript.Proofs.FailingTokens
import ClassScript.Proofs.FirstOrder
import ClassScript.Proofs.Gives
import ClassScript.Proofs.Headers
import ClassScript.Proofs.HostWork
import ClassScript.Proofs.ImportClosure
import ClassScript.Proofs.ImportPaths
import ClassScript.Proofs.Indifference
import ClassScript.Proofs.Instantiation
import ClassScript.Proofs.InterfaceFields
import ClassScript.Proofs.InterfaceMethods
import ClassScript.Proofs.InterfaceWalks
import ClassScript.Proofs.Likeness
import ClassScript.Proofs.Lines
import ClassScript.Proofs.LinkOrder
import ClassScript.Proofs.Lockstep
import ClassScript.Proofs.LockstepGrammar
import ClassScript.Proofs.LockstepStatements
import ClassScript.Proofs.LookAhead
import ClassScript.Proofs.MemberResolution
import ClassScript.Proofs.Mentions
import ClassScript.Proofs.MirroredCode
import ClassScript.Proofs.Mirrors
import ClassScript.Proofs.Moves
import ClassScript.Proofs.NestedSteps
import ClassScript.Proofs.Nesting
import ClassScript.Proofs.NormalTypes
import ClassScript.Proofs.Outlines
import ClassScript.Proofs.Pairings
import ClassScript.Proofs.ParentCalls
import ClassScript.Proofs.PermanentFrames
import ClassScript.Proofs.Phases
import ClassScript.Proofs.PrivateMembers
import ClassScript.Proofs.Progress
import ClassScript.Proofs.Promises
import ClassScript.Proofs.ReadBack
import ClassScript.Proofs.ReadBackPrograms
import ClassScript.Proofs.Reads
import ClassScript.Proofs.Rejections
import ClassScript.Proofs.Reordering
import ClassScript.Proofs.Replays
import ClassScript.Proofs.Resolution
import ClassScript.Proofs.Respects
import ClassScript.Proofs.RoundTrip
import ClassScript.Proofs.Runs
import ClassScript.Proofs.Samples
import ClassScript.Proofs.Scanning
import ClassScript.Proofs.Settling
import ClassScript.Proofs.Shapes
import ClassScript.Proofs.Showing
import ClassScript.Proofs.Sites
import ClassScript.Proofs.SpanTrees
import ClassScript.Proofs.Spelling
import ClassScript.Proofs.StackDiscipline
import ClassScript.Proofs.Steady
import ClassScript.Proofs.Substitutions
import ClassScript.Proofs.Subtyping
import ClassScript.Proofs.Tidy
import ClassScript.Proofs.TokenLines
import ClassScript.Proofs.TokenPlaces
import ClassScript.Proofs.TypeParameters
import ClassScript.Proofs.TypeSoundness
import ClassScript.Proofs.TypeTexts
import ClassScript.Proofs.Underlines
import ClassScript.Proofs.Unforgeable
import ClassScript.Proofs.Views
import ClassScript.Span
import ClassScript.Standard.Arrays
import ClassScript.Standard.Classes
import ClassScript.Standard.Prelude
import ClassScript.Standard.Strings
import ClassScript.Standard.System
import ClassScript.Syntax.Layout
import ClassScript.Syntax.Size
import ClassScript.Syntax.Text
import ClassScript.Syntax.Tree
import ClassScript.Syntax.Walk
import ClassScript.Text.Case
import ClassScript.Text.Glyph
import ClassScript.Text.Printable
import ClassScript.Token
import ClassScript.Token.Lexer
import ClassScript.Token.Stream
import ClassScript.Types.Accepts
import ClassScript.Types.Basic
import ClassScript.Typing.Annotations
import ClassScript.Typing.Basic
import ClassScript.Typing.Declarations
import ClassScript.Typing.Expressions
import ClassScript.Typing.Fault
import ClassScript.Typing.Members
import ClassScript.Typing.Program
import ClassScript.Typing.Scope
import ClassScript.Typing.Symbols
import ClassScript.Value.Heap
import ClassScript.Value.Storage
import ClassScript.Value.Text
import ClassScript.Yaml.Basic
import ClassScript.Yaml.Reader
import ClassScript.Yaml.Scalar
