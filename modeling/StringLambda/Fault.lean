import StringLambda.Defect
import StringLambda.Value

namespace StringLambda

/-! Everything that can go wrong, as causes; the wording is in one function for each kind. -/

/-- What evaluation refuses. Types are named as in messages. -/
inductive EvalIssue where
  | unresolvedName (name : String)
  | memberNotFound (type : ValueType) (name : String)
  | operandNotNumber (operator : String) (type : ValueType)
  | divisionByZero
  | moduloByZero
  | notComparable (left operator right : String)
  | notContainer (type : String)
  | notIndexable (type index : String)
  | notCallable (type : String)
  | memberNotCallable (name type : String)
  | unsupportedNode (label : String)
  | unhandledToken (kind text : String)
  | expectedOperator (found : String)
  | unknownOperator (operator : String)
  | unknownComparator (operator : String)
  | unsupportedUnary (operator : String)
  | malformedTernary
  | unknownStep (label : String)
  | numericArgument (method : String)
  | stringArgument (method : String)
  | infiniteRepeat
  | negativeRepeat
  | emptyReduce
  | fixedDigits
  | radixRange
  | mathArgument (function : String)
deriving DecidableEq

namespace EvalIssue

def message : EvalIssue → String
  | .unresolvedName name => "Name '" ++ name ++ "' not found"
  | .memberNotFound type name => type.name ++ " has no member '" ++ name ++ "'"
  | .operandNotNumber op type => "Operator '" ++ op ++ "' expects numbers; got " ++ type.name
  | .divisionByZero => "Division by zero"
  | .moduloByZero => "Modulo by zero"
  | .notComparable left op right => "Cannot compare " ++ left ++ " " ++ op ++ " " ++ right
  | .notContainer type => "Unsupported container type for 'in': " ++ type
  | .notIndexable type index => "Cannot index " ++ type ++ " with " ++ index
  | .notCallable type => "Cannot call value of type " ++ type
  | .memberNotCallable name type => "Member '" ++ name ++ "' of " ++ type ++ " is not callable"
  | .unsupportedNode label => "Unsupported node type: " ++ label
  | .unhandledToken kind text => "Unhandled token " ++ kind ++ ":" ++ text
  | .expectedOperator found => "Expected operator token, got " ++ found
  | .unknownOperator op => "Unknown operator " ++ op
  | .unknownComparator op => "Unknown comparator " ++ op
  | .unsupportedUnary op => "Unsupported unary op " ++ op
  | .malformedTernary => "Malformed ternary expression"
  | .unknownStep label => "Unknown chain op: " ++ label
  | .numericArgument method => method ++ " expects a numeric argument"
  | .stringArgument method => "string." ++ method ++ " expects a string argument"
  | .infiniteRepeat => "string.repeat count must be finite"
  | .negativeRepeat => "string.repeat count must be non-negative"
  | .emptyReduce => "reduce of empty list with no initial value"
  | .fixedDigits => "toFixed digits must be between 0 and 100"
  | .radixRange => "toString radix must be between 2 and 36"
  | .mathArgument function => "Math." ++ function ++ " expects a number"

/-- Issues with the type or range of an operand, as against the other refusals. -/
def isTypeIssue : EvalIssue → Bool
  | .operandNotNumber .. | .notComparable .. | .notContainer _ | .notIndexable .. | .notCallable _
  | .memberNotCallable .. | .numericArgument _ | .stringArgument _ | .infiniteRepeat
  | .negativeRepeat | .emptyReduce | .fixedDigits | .radixRange | .mathArgument _ => true
  | _ => false

end EvalIssue

/-- Why a specification could not be applied to a receiver. -/
inductive InvocationIssue where
  | unsuitable (type : ValueType)
  | extraArguments (count : Nat)
  | neither (receiver : ValueType) (cause : SourceError)

/-- Why a value is no lambda source or no callback. -/
inductive CompileIssue where
  | sourceNotText (type : ValueType)
  | notFunction (type : ValueType)

def CompileIssue.message : CompileIssue → String
  | .sourceNotText type => "Lambda source must be a string, got " ++ type.name
  | .notFunction type => "Expected a function or lambda source, got " ++ type.name

inductive Fault where
  | source (error : SourceError)
  | compile (issue : CompileIssue)
  /-- With the receiver and the specification of the invocation. -/
  | invocation (issue : InvocationIssue) (receiver spec : Value)
  /-- With the place of the innermost node around it that has one. -/
  | evaluation (issue : EvalIssue) (place : Option Position)
  | builtin (defect : Defect)

namespace Fault

def specText : Value → String
  | .text s => s
  | _ => ""

def message : Fault → String
  | .source e => e.message
  | .compile issue => issue.message
  | .invocation (.unsuitable type) _ _ => "Cannot invoke spec of type " ++ type.name
  | .invocation (.extraArguments count) _ spec =>
    "Member '" ++ specText spec ++ "' is not callable and takes no arguments (got "
      ++ intText count ++ ")"
  | .invocation (.neither type cause) _ spec =>
    "'" ++ specText spec ++ "' is neither a member of " ++ type.name ++ " nor a valid lambda: "
      ++ cause.message
  | .evaluation issue none => issue.message
  | .evaluation issue (some p) =>
    issue.message ++ " (line " ++ intText p.line ++ ", col " ++ intText p.column ++ ")"
  | .builtin _ => ""

def isAccounted : Fault → Bool
  | .builtin _ => false
  | _ => true

end Fault

end StringLambda
