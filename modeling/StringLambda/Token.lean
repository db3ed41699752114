import StringLambda.Position

namespace StringLambda

/-! Tokens of the expression language. -/

inductive Kind where
  | number | string | ident
  | true | false | null | undefined | in
  | plus | minus | star | slash | mod | pow
  | eq | neq | seq | sneq | lt | lte | gt | gte
  | and | or | not | nullish
  | lpar | rpar | lsqb | rsqb | dot | comma | colon | qmark
  | arrow
  | eof
deriving DecidableEq

namespace Kind

def name : Kind → String
  | .number => "NUMBER" | .string => "STRING" | .ident => "IDENT"
  | .true => "TRUE" | .false => "FALSE" | .null => "NULL" | .undefined => "UNDEFINED"
  | .in => "IN"
  | .plus => "PLUS" | .minus => "MINUS" | .star => "STAR" | .slash => "SLASH"
  | .mod => "MOD" | .pow => "POW"
  | .eq => "EQ" | .neq => "NEQ" | .seq => "SEQ" | .sneq => "SNEQ"
  | .lt => "LT" | .lte => "LTE" | .gt => "GT" | .gte => "GTE"
  | .and => "AND" | .or => "OR" | .not => "NOT" | .nullish => "NULLISH"
  | .lpar => "LPAR" | .rpar => "RPAR" | .lsqb => "LSQB" | .rsqb => "RSQB"
  | .dot => "DOT" | .comma => "COMMA" | .colon => "COLON" | .qmark => "QMARK"
  | .arrow => "ARROW"
  | .eof => "EOF"

def all : List Kind := [
  .number, .string, .ident, .true, .false, .null, .undefined, .in,
  .plus, .minus, .star, .slash, .mod, .pow,
  .eq, .neq, .seq, .sneq, .lt, .lte, .gt, .gte, .and, .or, .not, .nullish,
  .lpar, .rpar, .lsqb, .rsqb, .dot, .comma, .colon, .qmark, .arrow, .eof]

def ofName? (name : String) : Option Kind :=
  all.find? (·.name == name)

def isLiteral : Kind → Bool
  | .number | .string | .true | .false | .null | .undefined => Bool.true
  | _ => Bool.false

/-- Operators between two operands that may also open a text whose left operand is left out. -/
def opensSection : Kind → Bool
  | .plus | .star | .slash | .mod | .pow
  | .eq | .neq | .seq | .sneq | .lt | .lte | .gt | .gte
  | .and | .or | .nullish | .in | .dot => Bool.true
  | _ => Bool.false

/-- Operators between two operands that may also end a text whose right operand is left out. -/
def closesSection : Kind → Bool
  | .plus | .minus | .star | .slash | .mod | .pow
  | .eq | .neq | .seq | .sneq | .lt | .lte | .gt | .gte
  | .and | .or | .nullish | .in => Bool.true
  | _ => Bool.false

end Kind

/-- A lexeme with its kind and the place where it starts; the end of the source is an empty one. -/
structure Token where
  kind : Kind
  text : String
  place : Position
deriving DecidableEq

def Token.word (t : Token) : Kind × String := (t.kind, t.text)

def Token.stop (place : Position) : Token := ⟨.eof, "", place⟩

def Token.beyond : Token := ⟨.eof, "", ⟨0, 0⟩⟩

end StringLambda
