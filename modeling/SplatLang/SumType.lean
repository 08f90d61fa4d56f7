import SplatLang.Text.Utf8

/-!
# Closed categories of nodes

A declaration lists the cases of a category. It becomes an interface with a marker method, and
each case gets that method, so a case belongs to the category that lists it and to no other. A
case that is listed twice is refused.

How a file of declarations is read and how the text of code is laid out is left to a `Reader` and
an `Emitter`.
-/

namespace SplatLang

structure SumType where
  name : String
  /-- Interfaces that every case has as well. -/
  embeds : List String
  cases : List String
  deriving DecidableEq, Repr, Inhabited

inductive SumTypeError
  | malformed
  | duplicate (case first second : String)
  deriving DecidableEq, Repr

def SumTypeError.text : SumTypeError → String
  | malformed => "malformed declarations"
  | duplicate case first second =>
    case ++ " is listed in both " ++ first ++ " and " ++ second

namespace SumType

/-- Makes declarations of a file, unless it is malformed. -/
abbrev Reader := Text.Bytes → Option (List SumType)

/-! Repeated cases -/

def listed (ds : List SumType) : List (String × String) :=
  ds.flatMap fun d => d.cases.map fun c => (c, d.name)

/-- The first case that was listed before. `seen` holds the cases passed so far. -/
def firstRepeat : (seen : List (String × String)) → List (String × String) → Option SumTypeError
  | _, [] => none
  | seen, (case, owner) :: rest =>
    match seen.lookup case with
    | some first => some (.duplicate case first owner)
    | none => firstRepeat ((case, owner) :: seen) rest

def checkCases (ds : List SumType) : Except SumTypeError (List SumType) :=
  match firstRepeat [] (listed ds) with
  | some e => .error e
  | none => .ok ds

def parseWith (read : Reader) (bytes : Text.Bytes) : Except SumTypeError (List SumType) :=
  match read bytes with
  | none => .error .malformed
  | some ds => checkCases ds

/-! Code -/

inductive Member
  | embed (name : String)
  | method (name : String)
  deriving DecidableEq, Repr

/-- A declaration of the generated code. A method has no arguments and an empty body. -/
inductive Item
  | interface (name : String) (members : List Member)
  | method (receiver name : String)
  deriving DecidableEq, Repr

def markerName (d : SumType) : String := "is_" ++ d.name

def interfaceItem (d : SumType) : Item :=
  .interface d.name (d.embeds.map .embed ++ [.method d.markerName])

def items (d : SumType) : List Item :=
  d.interfaceItem :: d.cases.map (.method · d.markerName)

/-- Writes the source of a package down, unless it would be no code. -/
abbrev Emitter := (package : String) → List Item → Option String

def generateWith (emit : Emitter) (package : String) (ds : List SumType) : Option String :=
  emit package (ds.flatMap items)

end SumType

end SplatLang
