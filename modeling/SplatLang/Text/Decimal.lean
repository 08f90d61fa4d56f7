/-!
# Whole numbers in decimal notation

A number is an optional sign followed by at least one ASCII digit; leading zeros are allowed.
Readers with a range refuse a number outside it, so nothing is ever cut down to fit.
-/

namespace SplatLang.Text

def natural? (cs : List Char) : Option Nat :=
  if cs ≠ [] ∧ cs.all Char.isDigit then some (Nat.ofDigitChars 10 cs 0) else none

def integer? (cs : List Char) : Option Int :=
  match cs with
  | [] => none
  | c :: rest =>
    if c = '-' then (natural? rest).map fun n => -(n : Int)
    else if c = '+' then (natural? rest).map fun n => (n : Int)
    else (natural? cs).map fun n => (n : Int)

/-- A number that a signed word of 32 bits can hold. -/
def int32? (s : String) : Option Int32 :=
  ((integer? s.toList).filter fun n => -2147483648 ≤ n && n < 2147483648).map Int32.ofInt

/-- The least positive number that a signed word of 64 bits cannot hold. -/
def bound64 : Nat := 9223372036854775808

end SplatLang.Text
