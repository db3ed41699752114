import StringLambda.Token
import StringLambda.Text.Letter

namespace StringLambda

open Text

/-! Source text to tokens. A lexeme is the longest of its class at its place; spaces, tabs and line
ends separate lexemes and are dropped. -/

inductive LexIssue where
  | unterminatedString
  /-- A number runs into a letter or underscore. -/
  | invalidNumber (text : String)
  | unexpectedCharacter (c : Char)
deriving DecidableEq

structure LexError where
  issue : LexIssue
  place : Position
deriving DecidableEq

def LexIssue.message : LexIssue → String
  | .unterminatedString => "Unterminated string"
  | .invalidNumber text => "Invalid number literal '" ++ text ++ "'"
  | .unexpectedCharacter c => "Unexpected character '" ++ c.toString ++ "'"

def isSeparator (c : Char) : Bool :=
  c == ' ' || c == '\t' || c == '\n' || c == '\r'

/-- The length of what is left of a string literal up to and with its closing quote; a backslash
takes the next character with it. -/
def stringTail? (quote : Char) : List Char → Option Nat
  | [] => none
  | c :: cs =>
    if c = quote then some 1
    else if c = '\\' then
      match cs with
      | [] => none
      | _ :: rest => (stringTail? quote rest).map (· + 2)
    else (stringTail? quote cs).map (· + 1)

def digitRun (cs : List Char) : Nat :=
  (cs.takeWhile isAsciiDigit).length

def fractionLength : List Char → Nat
  | '.' :: cs => if digitRun cs = 0 then 0 else digitRun cs + 1
  | _ => 0

/-- The length of an exponent: a letter, perhaps a sign, and a digit at least. -/
def exponentLength : List Char → Nat
  | c :: cs =>
    if c = 'e' ∨ c = 'E' then
      match cs with
      | s :: ds =>
        if s = '+' ∨ s = '-' then if digitRun ds = 0 then 0 else digitRun ds + 2
        else if digitRun cs = 0 then 0 else digitRun cs + 1
      | [] => 0
    else 0
  | [] => 0

def numberLength (cs : List Char) : Nat :=
  let whole := digitRun cs
  let fraction := fractionLength (cs.drop whole)
  whole + fraction + exponentLength (cs.drop (whole + fraction))

def isQuote (c : Char) : Bool :=
  c == '"' || c == '\''

def opensWord (c : Char) : Bool :=
  isLetter c || c == '_'

def isWordChar (c : Char) : Bool :=
  isLetterOrNumeral c || c == '_'

def wordLength (cs : List Char) : Nat :=
  (cs.takeWhile isWordChar).length

def keywords : List (String × Kind) := [
  ("true", .true), ("false", .false), ("null", .null), ("undefined", .undefined),
  ("in", .in), ("and", .and), ("or", .or), ("not", .not)]

def wordKind (word : String) : Kind :=
  (keywords.lookup word).getD .ident

def operators : List (List Char × Kind) := [
  (['=', '=', '='], .seq), (['!', '=', '='], .sneq),
  (['-', '>'], .arrow), (['=', '='], .eq), (['!', '='], .neq), (['<', '='], .lte),
  (['>', '='], .gte), (['&', '&'], .and), (['|', '|'], .or), (['?', '?'], .nullish),
  (['*', '*'], .pow),
  (['+'], .plus), (['-'], .minus), (['*'], .star), (['/'], .slash), (['%'], .mod),
  (['<'], .lt), (['>'], .gt), (['!'], .not), (['('], .lpar), ([')'], .rpar),
  (['['], .lsqb), ([']'], .rsqb), (['.'], .dot), ([','], .comma), ([':'], .colon),
  (['?'], .qmark)]

/-- The kind and the length of the lexeme that starts with the character `c`. -/
def lexeme (c : Char) (cs : List Char) : Except LexIssue (Kind × Nat) :=
  if isQuote c then
    match stringTail? c cs with
    | some n => .ok (.string, n + 1)
    | none => .error .unterminatedString
  else if isAsciiDigit c then
    let n := numberLength (c :: cs)
    match (c :: cs).drop n with
    | next :: _ =>
      if opensWord next then
        .error (.invalidNumber (String.ofList ((c :: cs).take (n + 1))))
      else .ok (.number, n)
    | [] => .ok (.number, n)
  else if opensWord c then
    let n := wordLength (c :: cs)
    .ok (wordKind (String.ofList ((c :: cs).take n)), n)
  else
    match operators.find? fun (spelling, _) => spelling.isPrefixOf (c :: cs) with
    | some (spelling, kind) => .ok (kind, spelling.length)
    | none => .error (.unexpectedCharacter c)

/-- The tokens of a text that starts at a place, inside a lexeme of which `skip` characters are
left. -/
def scan (skip : Nat) (place : Position) : List Char → Except LexError (List Token)
  | [] => .ok [⟨.eof, "", place⟩]
  | c :: cs =>
    match skip with
    | skip + 1 => scan skip (place.advance c) cs
    | 0 =>
      if isSeparator c then scan 0 (place.advance c) cs
      else
        match lexeme c cs with
        | .error issue => .error ⟨issue, place⟩
        | .ok (kind, length) => do
          let rest ← scan (length - 1) (place.advance c) cs
          return ⟨kind, String.ofList ((c :: cs).take length), place⟩ :: rest

def tokenize (source : String) : Except LexError (List Token) :=
  scan 0 .start source.toList

end StringLambda
