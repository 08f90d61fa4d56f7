import SplatLang.Position

/-!
# Tokens

A token keeps the text it was read from and the place where that text begins. The parser decides
by text almost everywhere; the kind matters for literals and names.
-/

namespace SplatLang

inductive TokenKind
  | illegal
  | ident
  | keyword
  | int
  | string
  | operator
  | delimiter
  deriving DecidableEq, Repr, Inhabited

namespace TokenKind

def name : TokenKind → String
  | illegal => "ILLEGAL"
  | ident => "IDENT"
  | keyword => "KEYWORD"
  | int => "INT"
  | string => "STRING"
  | operator => "OPERATOR"
  | delimiter => "DELIMITER"

def ofNumber? : Int → Option TokenKind
  | 0 => some illegal
  | 1 => some ident
  | 2 => some keyword
  | 3 => some int
  | 4 => some string
  | 5 => some operator
  | 6 => some delimiter
  | _ => none

end TokenKind

structure Token where
  kind : TokenKind
  value : String
  location : Position
  deriving DecidableEq, Repr, Inhabited

/-- The short form of a token, which leaves out its kind and its file. -/
def Token.text (t : Token) : String :=
  "Token(" ++ t.value ++ ", " ++ toString t.location.line ++ ", " ++ toString t.location.column ++ ")"

def keywords : List String :=
  ["program", "begin", "end", "if", "then", "else", "while", "do", "print", "print_line", "return",
   "is", "void", "Integer", "Boolean", "String", "true", "false", "and", "or", "not"]

def isKeyword (s : String) : Bool := keywords.contains s

end SplatLang
