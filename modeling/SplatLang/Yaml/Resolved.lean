import SplatLang.Text.Base64
import SplatLang.Text.Percent
import SplatLang.Text.WholeNumber

/-!
# What scalars stand for

A plain scalar without a tag stands for whatever its spelling says: nothing, a truth value, a
number, a time or a text. A quoted one is a text. A standard tag asks for one of these kinds and
refuses a spelling of another kind; any other tag makes a text of the scalar.

Numbers with a fraction are kept only as far as a whole number of 64 bits can show them.
-/

namespace SplatLang.Yaml

open Text

inductive Resolved
  | null
  | boolean (b : Bool)
  | integer (n : Int)
  /-- A number with a fraction or an exponent, cut to a whole number; `none` if it has no bound. -/
  | decimal (whole : Option Int)
  | time
  | text (s : String)
  deriving DecidableEq, Repr

namespace Resolved

def nulls : List String := ["", "~", "null", "Null", "NULL"]

def trues : List String :=
  ["y", "Y", "yes", "Yes", "YES", "true", "True", "TRUE", "on", "On", "ON"]

def falses : List String :=
  ["n", "N", "no", "No", "NO", "false", "False", "FALSE", "off", "Off", "OFF"]

/-- Spellings of what is not a number, or is greater than every one. -/
def unbounded : List String :=
  [".nan", ".NaN", ".NAN", ".inf", ".Inf", ".INF", "+.inf", "+.Inf", "+.INF"]

def unboundedBelow : List String := ["-.inf", "-.Inf", "-.INF"]

/-! Numbers -/

/-- A signed number of 64 bits, or an unsigned one if it has no sign. -/
def wholeNumber? (cs : List Char) : Option Int :=
  match int64? anyBase? cs with
  | some n => some n
  | none => ((anyBase? cs).filter (· < 2 * bound64)).map Int.ofNat

/-- A number in base two whose sign, if any, stands behind the mark of the base. -/
def signInside? : List Char → Option Int
  | '0' :: 'b' :: rest => int64? (inBase? 2) rest
  | _ => none

/-- A number that is given by its digits and a power of ten, as the quotient nearest to it that has
53 bits. A number that is too large for such a quotient gives none. -/
def scaled? (digits : List Char) (exponent : Int) : Option (Nat × Nat) :=
  let ds := digits.dropWhile (· = '0')
  if ds = [] then some (0, 1)
  else if 309 < exponent + ds.length then none
  else if exponent + ds.length < -400 then some (0, 1)
  else
    let q := binary53 (Nat.ofDigitChars 10 ds 0 * Nat.pow 10 exponent.toNat)
      (Nat.pow 10 (-exponent).toNat)
    if q.2 <<< 1024 ≤ q.1 then none else some q

def exponent? : List Char → Option Int
  | [] => some 0
  | e :: rest =>
    if e = 'e' ∨ e = 'E' then
      match cutSign rest with
      | (true, ds) => (natural? ds).map fun n => -(n : Int)
      | (false, ds) => (natural? ds).map fun n => (n : Int)
    else none

def fraction? (cs : List Char) : Option (Nat × Nat) :=
  let whole := cs.takeWhile Char.isDigit
  let behind := cs.dropWhile Char.isDigit
  let (part, rest) :=
    match behind with
    | '.' :: more => (more.takeWhile Char.isDigit, more.dropWhile Char.isDigit)
    | _ => ([], behind)
  if whole ++ part = [] then none
  else do
    let e ← exponent? rest
    scaled? (whole ++ part) (e - part.length)

/-- A quotient cut to a whole number of 64 bits. What lies beyond the lower bound, or on the upper
one, becomes the lower bound. -/
def cut (negative : Bool) (q : Nat × Nat) : Option Int :=
  let n := q.1 / q.2
  -- Far below the range there is still the lower bound, but far above it there is nothing.
  if negative then some (-(min n bound64 : Nat))
  else if n < bound64 then some n
  else if q.1 = bound64 * q.2 then some (-(bound64 : Int))
  else none

/-! Times -/

def shortNumber? (most : Nat) (cs : List Char) : Option (Nat × List Char) :=
  let ds := (cs.takeWhile Char.isDigit).take most
  if ds = [] then none else some (Nat.ofDigitChars 10 ds 0, cs.drop ds.length)

def expectChar? (c : Char) : List Char → Option (List Char)
  | d :: rest => if d = c then some rest else none
  | [] => none

def daysIn (year month : Nat) : Nat :=
  if month = 2 then
    if year % 4 = 0 ∧ (year % 100 ≠ 0 ∨ year % 400 = 0) then 29 else 28
  else if [4, 6, 9, 11].contains month then 30
  else 31

def date? (cs : List Char) : Option (List Char) := do
  let (year, cs) ← if (cs.takeWhile Char.isDigit).length = 4 then shortNumber? 4 cs else none
  let cs ← expectChar? '-' cs
  let (month, cs) ← shortNumber? 2 cs
  let cs ← expectChar? '-' cs
  let (day, cs) ← shortNumber? 2 cs
  if 1 ≤ month ∧ month ≤ 12 ∧ 1 ≤ day ∧ day ≤ daysIn year month then some cs else none

def dropSecondPart : List Char → List Char
  | mark :: d :: rest =>
    if (mark = '.' ∨ mark = ',') ∧ d.isDigit then rest.dropWhile Char.isDigit
    else mark :: d :: rest
  | cs => cs

def clock? (cs : List Char) : Option (List Char) := do
  let (hour, cs) ← shortNumber? 2 cs
  let cs ← expectChar? ':' cs
  let (minute, cs) ← shortNumber? 2 cs
  let cs ← expectChar? ':' cs
  let (second, cs) ← shortNumber? 2 cs
  if hour < 24 ∧ minute < 60 ∧ second < 60 then some (dropSecondPart cs) else none

def isZone (cs : List Char) : Bool :=
  match cs with
  | ['Z'] => true
  | [s, a, b, ':', c, d] =>
    (s = '+' || s = '-') && [a, b, c, d].all Char.isDigit &&
      Nat.ofDigitChars 10 [a, b] 0 ≤ 24 && Nat.ofDigitChars 10 [c, d] 0 ≤ 60
  | _ => false

/-- A date, and perhaps a time of day behind it: without a zone behind blanks, and with one behind
a letter. -/
def isTime (cs : List Char) : Bool :=
  match date? cs with
  | none => false
  | some [] => true
  | some (c :: rest) =>
    if c = ' ' then clock? (rest.dropWhile (· = ' ')) = some []
    else (c = 'T' || c = 't') && (clock? rest).any isZone

/-! Resolution -/

def number? (cs : List Char) : Option Resolved :=
  match wholeNumber? cs with
  | some n => some (.integer n)
  | none =>
    match cutSign cs with
    | (negative, rest) =>
      match fraction? rest with
      | some q => some (.decimal (cut negative q))
      | none => (signInside? cs).map .integer

/-- What a plain spelling stands for. Times are looked for only if `times` says so. -/
def ofSpelling (times : Bool) (s : String) : Resolved :=
  if nulls.contains s then .null
  else if trues.contains s then .boolean true
  else if falses.contains s then .boolean false
  else if unbounded.contains s then .decimal none
  else if unboundedBelow.contains s then .decimal (some (-(bound64 : Int)))
  else
    match s.toList with
    | [] => .null
    | c :: rest =>
      if c.isDigit || c = '+' || c = '-' then
        if times && isTime (c :: rest) then .time
        else (number? ((c :: rest).filter (· ≠ '_'))).getD (.text s)
      else if c = '.' && underscoresFit Char.isDigit false (c :: rest) then
        match fraction? ((c :: rest).filter (· ≠ '_')) with
        | some q => .decimal (cut false q)
        | none => .text s
      else .text s

def asFraction? (n : Int) : Option Resolved :=
  if n = 0 then some (.decimal (some 0))
  else if n < bound64 then some (.decimal (cut (n < 0) (binary53 n.natAbs 1)))
  else none

end Resolved

def standardTag (name : String) : String := "tag:yaml.org,2002:" ++ name

/-- What a scalar stands for. The empty tag means that there is none; `none` says that the text
does not fit the tag. -/
def Resolved.ofScalar? (tag : String) (plain : Bool) (text : String) : Option Resolved :=
  if tag = "" then some (if plain then ofSpelling true text else .text text)
  else if tag = standardTag "binary" then
    (base64? (text.toList.filter fun c => c ≠ '\n' ∧ c ≠ '\r')).map fun bytes => .text (textOf bytes)
  else if tag = standardTag "null" then
    match ofSpelling false text with
    | .null => some .null
    | _ => none
  else if tag = standardTag "bool" then
    match ofSpelling false text with
    | .boolean b => some (.boolean b)
    | _ => none
  else if tag = standardTag "int" then
    match ofSpelling false text with
    | .integer n => some (.integer n)
    | _ => none
  else if tag = standardTag "float" then
    match ofSpelling false text with
    | .integer n => asFraction? n
    | .decimal whole => some (.decimal whole)
    | _ => none
  else if tag = standardTag "timestamp" then
    match ofSpelling true text with
    | .time => some .time
    | _ => none
  else some (.text text)

end SplatLang.Yaml
