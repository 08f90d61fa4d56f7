/-!
# Percentages with one decimal

A share is computed as a binary fraction with 53 significant bits, and that fraction is then
written with one decimal. Both steps round to the nearest value and send a tie to the even
neighbour, so 1 of 16 is `6.2` and 3 of 16 is `18.8`.
-/

namespace SplatLang.Text

/-- The whole number nearest to a quotient; a tie goes to the even one. -/
def roundDiv (num den : Nat) : Nat :=
  let q := num / den
  let twice := 2 * (num % den)
  if twice < den then q
  else if den < twice then q + 1
  else if q % 2 = 0 then q
  else q + 1

def binaryExponent (num den : Nat) : Int :=
  let guess : Int := num.log2 - den.log2
  if den <<< guess.toNat ≤ num <<< (-guess).toNat then guess else guess - 1

/-- A positive quotient rounded to 53 significant bits, as numerator and denominator. -/
def binary53 (num den : Nat) : Nat × Nat :=
  let shift := 52 - binaryExponent num den
  (roundDiv (num <<< shift.toNat) (den <<< (-shift).toNat) <<< (-shift).toNat,
    1 <<< shift.toNat)

def percent (n total : Nat) : String :=
  if n = 0 ∨ total = 0 then "0.0"
  else
    match binary53 (100 * n) total with
    | (num, den) =>
      let tenths := roundDiv (10 * num) den
      toString (tenths / 10) ++ "." ++ toString (tenths % 10)

end SplatLang.Text
