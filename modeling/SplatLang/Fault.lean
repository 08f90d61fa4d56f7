import SplatLang.Position

/-!
# Faults and failures

A fault says what is wrong with a source program, where, and which phase found it. Each phase has
its own type of causes; `At` ties a cause to a place, and `Fault` is the common form in which
every phase reports.

A failure is an error on its way to the user: a fault, or an error that is no fault of the source
such as a device that takes no more output, under the layers that callers put around it. A fault
is found again through every layer. A caller that hands on nothing but a text makes another error
of it.
-/

namespace SplatLang

/-- The phases that raise faults, in the order in which they run. -/
inductive Phase
  | lex
  | parse
  | semantic
  | execution
  deriving DecidableEq, Repr, Inhabited

namespace Phase

def name : Phase → String
  | lex => "lex"
  | parse => "parse"
  | semantic => "semantic"
  | execution => "execution"

/-- Phases are numbered from 1, since 0 stands for no phase. -/
def number : Phase → Nat
  | lex => 1
  | parse => 2
  | semantic => 3
  | execution => 4

def ofNumber? : Int → Option Phase
  | 1 => some lex
  | 2 => some parse
  | 3 => some semantic
  | 4 => some execution
  | _ => none

def nameOrNone : Option Phase → String
  | some p => p.name
  | none => "none"

end Phase

structure At (ε : Type) where
  cause : ε
  location : Position
  deriving DecidableEq, Repr

structure Fault where
  phase : Phase
  message : String
  location : Position
  deriving DecidableEq, Repr

def Fault.text (f : Fault) : String :=
  f.message ++ " (" ++ f.location.text ++ ")"

inductive Failure
  /-- A fault of the source program. -/
  | fault (f : Fault)
  /-- Any other error. -/
  | other (text : String)
  /-- A layer that records where the error passed and changes neither text nor meaning. -/
  | traced (inner : Failure)
  /-- A layer that puts words before the text. -/
  | context (words : String) (inner : Failure)
  deriving DecidableEq, Repr

instance : Coe String Failure := ⟨.other⟩

namespace Failure

def text : Failure → String
  | fault f => f.text
  | other t => t
  | traced e => e.text
  | context w e => w ++ ": " ++ e.text

/-- The fault inside a failure, looked for through every layer. -/
def fault? : Failure → Option Fault
  | fault f => some f
  | other _ => none
  | traced e => e.fault?
  | context _ e => e.fault?

def phase? (e : Failure) : Option Phase := e.fault?.map Fault.phase

def location? (e : Failure) : Option Position := e.fault?.map Fault.location

def message (e : Failure) : String :=
  match e.fault? with
  | some f => f.message
  | none => e.text

/-- Puts words around an error. Around no error at all they make an error of their own, which says
that nothing was there to wrap. -/
def contextOf (words : String) : Option Failure → Failure
  | some e => context words e
  | none => other (words ++ ": %!w(<nil>)")

/-- An error of its own that keeps no more of another one than its text. -/
def sealOf (e : Option Failure) (words : String := "opaque") : Failure :=
  other (words ++ ": " ++ (e.map text).getD "<nil>")

end Failure

end SplatLang
