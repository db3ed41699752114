import StringLambda.Defect
import StringLambda.Number.Dyadic
import StringLambda.Number.Radix
import StringLambda.Number.Decimal
import StringLambda.Number.Modulus
import StringLambda.Number.Basic
import StringLambda.Number.Reading
import StringLambda.Text.Ranges
import StringLambda.Text.Letter
import StringLambda.Text.Identifier
import StringLambda.Text.Printable
import StringLambda.Text.Blank
import StringLambda.Text.Digit
import StringLambda.Text.Case
import StringLambda.Text.Quoted
import StringLambda.Text.Search
import StringLambda.Slice
import StringLambda.Sorting
import StringLambda.Position
import StringLambda.Token
import StringLambda.Token.Lexer
import StringLambda.Token.Lexeme
import StringLambda.Tree
import StringLambda.Tree.Parser
import StringLambda.Tree.Grammar
import StringLambda.Tree.Alike
import StringLambda.Lambda
import StringLambda.Lambda.Cache
import StringLambda.Lambda.NameSet
import StringLambda.Lambda.Compiles
import StringLambda.Builtin
import StringLambda.Value
import StringLambda.Heap
import StringLambda.Heap.Compare
import StringLambda.Heap.Display
import StringLambda.Fault
import StringLambda.Act
import StringLambda.Machine
import StringLambda.Operator
import StringLambda.Member
import StringLambda.Compile
import StringLambda.Invoke
import StringLambda.Evaluate
import StringLambda.Library.Argument
import StringLambda.Library.Text
import StringLambda.Library.Sequence
import StringLambda.Library.Number
import StringLambda.Library.Global
import StringLambda.Library.TextMethod
import StringLambda.Library.ListMethod
import StringLambda.Library.DictMethod
import StringLambda.Library.Method
import StringLambda.Call
import StringLambda.Combinator
import StringLambda.Wrapper
import StringLambda.Literal
import StringLambda.Console.Settings
import StringLambda.Console.Journal
import StringLambda.Console.Command
import StringLambda.Console.Completion
import StringLambda.Console.Highlight
import StringLambda.Console.Terminal
import StringLambda.Console.Interactive
import StringLambda.Console.CommandLine
import StringLambda.Main
import StringLambda.Proofs.Lexing.Lexemes
import StringLambda.Proofs.Lexing
import StringLambda.Proofs.Lexing.Words
import StringLambda.Proofs.Lexing.Spacing
import StringLambda.Proofs.Parsing.Soundness
import StringLambda.Proofs.Parsing.Variables
import StringLambda.Proofs.Parsing.Completeness
import StringLambda.Proofs.Parsing
import StringLambda.Proofs.Parsing.Parameters
import StringLambda.Proofs.Spelling
import StringLambda.Proofs.Parsing.Renaming
import StringLambda.Proofs.Parsing.Lockstep
import StringLambda.Proofs.Caching
import StringLambda.Proofs.Evaluation.Alike
import StringLambda.Proofs.Forms.Arrow
import StringLambda.Proofs.Forms
import StringLambda.Proofs.Forms.Expression
import StringLambda.Proofs.Forms.Inference
import StringLambda.Proofs.Forms.Lockstep
import StringLambda.Proofs.Spacing
import StringLambda.Proofs.Pointing
import StringLambda.Proofs.Currying
import StringLambda.Proofs.Stops
import StringLambda.Proofs.Evaluation.Operations
import StringLambda.Proofs.Evaluation.Library
import StringLambda.Proofs.Evaluation.Plain
import StringLambda.Proofs.Evaluation.Congruence
import StringLambda.Proofs.Evaluation.Setting
import StringLambda.Proofs.Evaluation.Reads
import StringLambda.Proofs.Evaluation.Coincidence
import StringLambda.Proofs.Forms.Closed
import StringLambda.Proofs.Evaluation.Notes
import StringLambda.Proofs.Evaluation.Unnamed
import StringLambda.Proofs.Evaluation.Oblivious
import StringLambda.Proofs.Hosting
import StringLambda.Proofs.Loops
import StringLambda.Proofs.Loops.Members
import StringLambda.Proofs.Loops.Changes
import StringLambda.Proofs.Scoping
import StringLambda.Proofs.Scoping.Mapping
import StringLambda.Proofs.Refusing
import StringLambda.Proofs.Wrapping
import StringLambda.Proofs.Console
import StringLambda.Proofs.Console.Receiver
import StringLambda.Proofs.Console.Containment
import StringLambda.Proofs.Searching
import StringLambda.Proofs.Console.Highlighting
import StringLambda.Proofs.Arithmetic.Format
import StringLambda.Proofs.Arithmetic.Nesting
import StringLambda.Proofs.Arithmetic.Numbers
import StringLambda.Proofs.Arithmetic
import StringLambda.Proofs.Arithmetic.Exactness
import StringLambda.Proofs.Arithmetic.Remainder
import StringLambda.Proofs.Arithmetic.Addition
import StringLambda.Proofs.Literal
import StringLambda.Proofs.Placing
import StringLambda.Proofs.Naming.Texts
import StringLambda.Proofs.Naming
import StringLambda.Proofs.Numerals
import StringLambda.Proofs.Quoting
import StringLambda.Proofs.Rendering.Data
import StringLambda.Proofs.Rendering.Words
import StringLambda.Proofs.Rendering
import StringLambda.Proofs.Arithmetic.Rounding
import StringLambda.Proofs.Arithmetic.Power
import StringLambda.Proofs.Preserving.Containers
import StringLambda.Proofs.Preserving.Bounds
import StringLambda.Proofs.Preserving.Operations
import StringLambda.Proofs.Preserving
import StringLambda.Proofs.Splitting
import StringLambda.Proofs.Queueing
import StringLambda.Proofs.Resolving
