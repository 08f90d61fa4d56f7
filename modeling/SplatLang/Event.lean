/-!
# What a trace records

Each phase announces itself, and every call of a function is recorded with its depth.
-/

namespace SplatLang

inductive Event
  | lexing (file : String)
  | parsing (tokens : Nat)
  | analyzing (declarations : Nat)
  | executing (file : String) (functions : Nat)
  | call (func : String) (depth : Nat)
  | finished (file : String)
  | judged (name expected actual : String)
  deriving DecidableEq, Repr

namespace Event

def text : Event → String
  | lexing file => "lexing " ++ file
  | parsing tokens => "parsing " ++ toString tokens ++ " token(s)"
  | analyzing declarations => "analyzing " ++ toString declarations ++ " declaration(s)"
  | executing file functions => "executing " ++ file ++ ": " ++ toString functions ++ " function(s)"
  | call func depth => "call " ++ func ++ " (depth " ++ toString depth ++ ")"
  | finished file => "finished " ++ file
  | judged name expected actual => name ++ ": expected " ++ expected ++ ", got " ++ actual

/-- An entry of a log: a mark, the text, and a line feed unless the text already ends with one. -/
def entry (mark : String) (e : Event) : String :=
  mark ++ e.text ++ if e.text.toList.getLast? = some '\n' then "" else "\n"

def log (mark : String) (events : List Event) : String :=
  String.join (events.map (entry mark))

end Event

end SplatLang
