import SplatLang.Fault
import SplatLang.Text.Affix

/-!
# Outcomes of a case

The name of a case says how its run is to end: with a fault of one phase, or well.
-/

namespace SplatLang

inductive Outcome
  /-- An error that is no fault of the source. -/
  | internal
  | raised (phase : Phase)
  | success
  deriving DecidableEq, Repr, Inhabited

namespace Outcome

/-- Outcomes by number: the phases have theirs, and a run that ends well has the next one. -/
def number : Outcome → Int
  | internal => -1
  | raised p => p.number
  | success => 5

def ofNumber? (n : Int) : Option Outcome :=
  if n = -1 then some internal
  else if n = 5 then some success
  else (Phase.ofNumber? n).map raised

def name : Outcome → String
  | internal => "Internal Error"
  | raised .lex => "Lex Exception"
  | raised .parse => "Parse Exception"
  | raised .semantic => "Semantic Exception"
  | raised .execution => "Execution Exception"
  | success => "Execution Success"

/-- The outcomes that a case can ask for, in the order of reports. -/
def all : List Outcome :=
  [raised .lex, raised .parse, raised .semantic, raised .execution, success]

def suffix : Outcome → String
  | internal => ""
  | raised .lex => "badlex.splat"
  | raised .parse => "badparse.splat"
  | raised .semantic => "badsemantics.splat"
  | raised .execution => "badexecution.splat"
  | success => "goodexecution.splat"

def expected (file : String) : Except Failure Outcome :=
  match all.find? fun o => Text.hasSuffix file o.suffix with
  | some o => .ok o
  | none => .error (.other ("bad test filename: " ++ file))

def ofFailure : Option Failure → Outcome
  | none => success
  | some e =>
    match e.phase? with
    | some p => raised p
    | none => internal

end Outcome

end SplatLang
