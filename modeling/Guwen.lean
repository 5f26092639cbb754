import Guwen.Main
import Guwen.NodeSource
import Guwen.Proofs.Grammar.Acceptance
import Guwen.Token.Cursor
import Guwen.Proofs.Resolution.Marks
import Guwen.Proofs.Resolution.Visibility
import Guwen.Proofs.Resolution.Repetition
import Guwen.Proofs.Resolution.Declarations
import Guwen.Proofs.Resolution.Discipline
import Guwen.Proofs.Resolution.Interruption
import Guwen.Proofs.Text.Encoding
import Guwen.Proofs.Token.Spelling
import Guwen.Proofs.Compilation.Safety
import Guwen.Proofs.Code.Identifier
import Guwen.Proofs.Code.Reading
import Guwen.Proofs.Code.Pieces
import Guwen.Proofs.Code.Expression
import Guwen.Proofs.Code.Replay
import Guwen.Proofs.Grammar.Provenance
import Guwen.Proofs.Code.Mirror
import Guwen.Proofs.Compilation.Preservation
import Guwen.Proofs.Token.Piece
import Guwen.Proofs.Token.Partition
import Guwen.Proofs.Token.Lines
import Guwen.Proofs.Grammar.Transport
import Guwen.Proofs.Grammar.Succession
import Guwen.Proofs.Grammar.WeakestOperator
import Guwen.Proofs.Code.Braces
import Guwen.Proofs.Compilation.Nesting
import Guwen.Proofs.Compilation.Concatenation
import Guwen.Proofs.Grammar.Printing
import Guwen.Proofs.Grammar.RoundTrip
import Guwen.Proofs.Command.Files
import Guwen.Proofs.Command.Agreement
import Guwen.Proofs.Code.Blocks
import Guwen.Proofs.Compilation.Jumps
import Guwen.Proofs.Compilation.Redeclaration
import Guwen.Proofs.Code.Arithmetic
import Guwen.Proofs.Compilation.Arithmetic
import Guwen.Proofs.Grammar.Places
import Guwen.Proofs.Grammar.Promptness
import Guwen.Proofs.Grammar.Continuation
import Guwen.Proofs.Grammar.PromptReaders
import Guwen.Proofs.Grammar.EndToken
import Guwen.Proofs.Grammar.EarliestRefusal
import Guwen.Proofs.Code.Delimiters
import Guwen.Proofs.Code.Outline
import Guwen.Proofs.Grammar.Occurrences
import Guwen.Proofs.Compilation.Unambiguity
import Guwen.Proofs.Compilation.Unresolved
import Guwen.Proofs.Code.IdentifierForms
import Guwen.Proofs.Code.StringLiteral
import Guwen.Proofs.Grammar.NumeralReading
import Guwen.Proofs.Token.Positions
import Guwen.Proofs.Token.LongestMatch
import Guwen.Proofs.Text.Split
import Guwen.Proofs.Command.Paths
import Guwen.Proofs.Command.BuildTarget
import Guwen.Proofs.Compilation.LibraryNames
import Guwen.Proofs.Code.Invocation
import Guwen.Proofs.Compilation.CallStatements
import Guwen.Proofs.Code.RegularLiteral
import Guwen.Proofs.Code.Weave
import Guwen.Proofs.Compilation.LineBreaks
import Guwen.Proofs.Resolution.Operations
import Guwen.Proofs.Text.Trim
import Guwen.Proofs.NodeSource
import Guwen.Proofs.Grammar.RefusalContext
import Guwen.Proofs.Grammar.Stacks
import Guwen.Proofs.Grammar.StackDiscipline
import Guwen.Proofs.Tree.Shape
import Guwen.Proofs.Tree.Gist
import Guwen.Proofs.Tree.Listing
