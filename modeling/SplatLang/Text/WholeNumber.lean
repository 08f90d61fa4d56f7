import SplatLang.Text.Decimal

/-!
# Whole numbers in several bases

The front of a number tells its base: `0x`, `0o` and `0b` in either case of the letter, a lone `0`
for base eight, and otherwise base ten. Readers that allow underscores first ask where they stand
and then read the number without them.
-/

namespace SplatLang.Text

def digitValue? (c : Char) : Option Nat :=
  if '0' ≤ c ∧ c ≤ '9' then some (c.toNat - '0'.toNat)
  else if 'a' ≤ c ∧ c ≤ 'f' then some (c.toNat - 'a'.toNat + 10)
  else if 'A' ≤ c ∧ c ≤ 'F' then some (c.toNat - 'A'.toNat + 10)
  else none

def addDigit (base : Nat) (acc : Option Nat) (c : Char) : Option Nat := do
  let n ← acc
  let d ← digitValue? c
  if d < base then some (n * base + d) else none

def inBase? (base : Nat) (cs : List Char) : Option Nat :=
  if cs = [] then none else cs.foldl (addDigit base) (some 0)

def numberedChar? (width : Nat) (cs : List Char) : Option Char := do
  let n ← if cs.length < width then none else inBase? 16 (cs.take width)
  if n < 0xD800 ∨ (0xE000 ≤ n ∧ n ≤ 0x10FFFF) then some (Char.ofNat n) else none

/-- A whole number whose base is told by what it begins with. -/
def anyBase? : List Char → Option Nat
  | '0' :: 'x' :: cs | '0' :: 'X' :: cs => inBase? 16 cs
  | '0' :: 'o' :: cs | '0' :: 'O' :: cs => inBase? 8 cs
  | '0' :: 'b' :: cs | '0' :: 'B' :: cs => inBase? 2 cs
  | '0' :: c :: cs => inBase? 8 (c :: cs)
  | cs => inBase? 10 cs

def cutSign : List Char → Bool × List Char
  | '-' :: rest => (true, rest)
  | '+' :: rest => (false, rest)
  | cs => (false, cs)

def int64? (digits? : List Char → Option Nat) (cs : List Char) : Option Int :=
  match cutSign cs with
  | (true, rest) => (digits? rest).bind fun n => if n ≤ bound64 then some (-(n : Int)) else none
  | (false, rest) => (digits? rest).bind fun n => if n < bound64 then some (n : Int) else none

def underscoresFit (isDigit : Char → Bool) : (afterDigit : Bool) → List Char → Bool
  | _, [] => true
  | afterDigit, c :: rest =>
    if c = '_' then afterDigit && rest.head?.any isDigit && underscoresFit isDigit false rest
    else underscoresFit isDigit (isDigit c) rest

/-- Whether every underscore of a whole number without a sign stands between two digits, of which
the first may be the mark of the base. -/
def underscoresFitBase : List Char → Bool
  | '0' :: c :: rest =>
    if c = 'x' || c = 'X' then underscoresFit (fun d => (digitValue? d).isSome) true rest
    else if "oObB".toList.contains c then underscoresFit Char.isDigit true rest
    else underscoresFit Char.isDigit true (c :: rest)
  | cs => underscoresFit Char.isDigit false cs

end SplatLang.Text
