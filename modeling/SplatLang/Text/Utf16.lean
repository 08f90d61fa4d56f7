import SplatLang.Text.Utf8

/-!
# Reading UTF-16

A unit is two bytes, in one order or the other. Two surrogates in their right order are one
character, and a surrogate on its own is none, so a text that holds one is refused as a whole.
-/

namespace SplatLang.Text

/-- The units of a text whose units have their low byte first, or last. -/
def units? (lowFirst : Bool) : Bytes → Option (List Nat)
  | [] => some []
  | [_] => none
  | a :: b :: rest =>
    let unit := if lowFirst then b.toNat * 256 + a.toNat else a.toNat * 256 + b.toNat
    (units? lowFirst rest).map (unit :: ·)

def isHighSurrogate (unit : Nat) : Bool := 0xD800 ≤ unit && unit < 0xDC00

def isLowSurrogate (unit : Nat) : Bool := 0xDC00 ≤ unit && unit < 0xE000

def ofUnits? : List Nat → Option (List Char)
  | [] => some []
  | [u] => if isHighSurrogate u || isLowSurrogate u then none else some [Char.ofNat u]
  | u :: v :: rest =>
    if isHighSurrogate u then
      if isLowSurrogate v then
        (ofUnits? rest).map (Char.ofNat (0x10000 + (u - 0xD800) * 1024 + (v - 0xDC00)) :: ·)
      else none
    else if isLowSurrogate u then none
    else (ofUnits? (v :: rest)).map (Char.ofNat u :: ·)

def decodeUtf16? (lowFirst : Bool) (bytes : Bytes) : Option (List Char) :=
  (units? lowFirst bytes).bind ofUnits?

end SplatLang.Text
