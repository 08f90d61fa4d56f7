import SplatLang.SumType.Source

/-!
# The text of generated code

Every declaration stands behind an empty line, and every member of an interface on a line of its
own. A name that is no identifier, or that is a keyword, makes no code.
-/

namespace SplatLang.SumType

def keywords : List String :=
  ["break", "case", "chan", "const", "continue", "default", "defer", "else", "fallthrough", "for",
    "func", "go", "goto", "if", "import", "interface", "map", "package", "range", "return",
    "select", "struct", "switch", "type", "var"]

/-- A letter or an underscore, then letters, digits and underscores. -/
def isIdentifier (s : String) : Bool :=
  match s.toList with
  | [] => false
  | c :: cs => startsName c && cs.all Lexer.isNameChar

def isUsable (s : String) : Bool := isIdentifier s && !keywords.contains s

def Member.name : Member → String
  | embed name | method name => name

def Item.names : Item → List String
  | interface name members => name :: members.map Member.name
  | method receiver name => [receiver, name]

def Member.text : Member → String
  | embed name => "\t" ++ name ++ "\n"
  | method name => "\t" ++ name ++ "()\n"

def Item.text : Item → String
  | interface name members =>
    "\ntype " ++ name ++ " interface \x7b\n" ++ String.join (members.map Member.text) ++ "\x7d\n"
  | method receiver name => "\nfunc (*" ++ receiver ++ ") " ++ name ++ "() \x7b\x7d\n"

def preamble (package : String) : String :=
  "// Code generated by adtgen from nodes.adt. DO NOT EDIT.\n\npackage " ++ package ++ "\n"

def emit : Emitter := fun package items =>
  if (package :: items.flatMap Item.names).all isUsable then
    some (preamble package ++ String.join (items.map Item.text))
  else none

def generate? (package : String) (ds : List SumType) : Option String :=
  generateWith emit package ds

/-- The code of categories, which is empty if their names make none. -/
def generate (package : String) (ds : List SumType) : String := (generate? package ds).getD ""

end SplatLang.SumType
