import SplatLang.Text.WholeNumber

/-!
# Arguments of a command line

Flags come first, with one dash or two. A flag with a value takes it after an equals sign or from
the next argument; a switch needs none. The first argument that is no flag, or two dashes alone,
ends the flags.
-/

namespace SplatLang.Command

inductive FlagKind
  | switch
  | text
  | number
  deriving DecidableEq, Repr

inductive FlagValue
  | switch (b : Bool)
  | text (s : String)
  | number (n : Int)
  deriving DecidableEq, Repr

structure Flags where
  given : List (String × FlagValue)
  rest : List String
  deriving Repr

namespace Flags

def has (f : Flags) (name : String) : Bool := (f.given.lookup name).isSome

def switch (f : Flags) (name : String) : Bool :=
  match f.given.lookup name with
  | some (.switch b) => b
  | _ => false

def text? (f : Flags) (name : String) : Option String :=
  match f.given.lookup name with
  | some (.text s) => some s
  | _ => none

def number? (f : Flags) (name : String) : Option Int :=
  match f.given.lookup name with
  | some (.number n) => some n
  | _ => none

end Flags

def boolean? (s : String) : Option Bool :=
  if ["1", "t", "T", "TRUE", "true", "True"].contains s then some true
  else if ["0", "f", "F", "FALSE", "false", "False"].contains s then some false
  else none

/-- A number of 64 bits in any base that its spelling tells, with underscores between digits. -/
def number? (s : String) : Option Int :=
  if Text.underscoresFitBase (Text.cutSign s.toList).2 then
    Text.int64? Text.anyBase? (s.toList.filter (· ≠ '_'))
  else none

def FlagKind.read? (kind : FlagKind) (value : String) : Option FlagValue :=
  match kind with
  | switch => (boolean? value).map .switch
  | text => some (.text value)
  | number => (Command.number? value).map .number

def flagBody? (arg : String) : Option (List Char) :=
  match arg.toList with
  | '-' :: '-' :: rest => some rest
  | '-' :: c :: rest => some (c :: rest)
  | _ => none

/-- Reads flags of the given kinds. `none` if one is unknown, badly formed or lacks its value. -/
def readFlags (kinds : List (String × FlagKind)) :
    (given : List (String × FlagValue)) → List String → Option Flags
  | given, [] => some ⟨given, []⟩
  | given, arg :: rest =>
    match flagBody? arg with
    | none => some ⟨given, arg :: rest⟩
    -- Two dashes alone are dropped.
    | some [] => some ⟨given, rest⟩
    | some (c :: body) =>
      if c = '-' || c = '=' then none
      else
        let name := String.ofList ((c :: body).takeWhile (· ≠ '='))
        match kinds.lookup name, (c :: body).dropWhile (· ≠ '=') with
        | none, _ => none
        | some kind, _ :: value => do
          let v ← kind.read? (String.ofList value)
          readFlags kinds ((name, v) :: given) rest
        | some .switch, [] => readFlags kinds ((name, .switch true) :: given) rest
        | some kind, [] =>
          match rest with
          | [] => none
          | value :: more => do
            let v ← kind.read? value
            readFlags kinds ((name, v) :: given) more

end SplatLang.Command
