import SplatLang.Text.Utf8

/-!
# Bytes in base 64

Four characters carry three bytes. Equals signs fill up the last four, which then carry one byte
or two; the bits that no byte takes are not looked at.
-/

namespace SplatLang.Text

def sextet? (c : Char) : Option Nat :=
  if 'A' ≤ c ∧ c ≤ 'Z' then some (c.toNat - 'A'.toNat)
  else if 'a' ≤ c ∧ c ≤ 'z' then some (c.toNat - 'a'.toNat + 26)
  else if '0' ≤ c ∧ c ≤ '9' then some (c.toNat - '0'.toNat + 52)
  else if c = '+' then some 62
  else if c = '/' then some 63
  else none

def threeBytes (n : Nat) : Bytes :=
  [UInt8.ofNat (n / 65536), UInt8.ofNat (n / 256 % 256), UInt8.ofNat (n % 256)]

def quartet? (a b c d : Char) : Option Bytes := do
  let w ← sextet? a
  let x ← sextet? b
  let y ← sextet? c
  let z ← sextet? d
  some (threeBytes (w * 262144 + x * 4096 + y * 64 + z))

def base64? : List Char → Option Bytes
  | [] => some []
  | [a, b, '=', '='] => (quartet? a b 'A' 'A').map (·.take 1)
  | [a, b, c, '='] => (quartet? a b c 'A').map (·.take 2)
  | a :: b :: c :: d :: rest => do
    let here ← quartet? a b c d
    let more ← base64? rest
    some (here ++ more)
  | _ => none

end SplatLang.Text
