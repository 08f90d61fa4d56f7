/-!
# Reading and writing UTF-8

Source text arrives as bytes and need not be valid. `decode` never fails: a byte that does not
start a well-formed sequence stands for one replacement character, and reading goes on with the
byte after it. Overlong forms, surrogates and values beyond U+10FFFF are not well formed, so each
of their bytes is replaced on its own.
-/

namespace SplatLang.Text

abbrev Bytes := List UInt8

/-- Stands for a byte that is no part of a character. -/
def replacement : Char := '\uFFFD'

def isTrailing (b : UInt8) : Bool := 0x80 ≤ b && b < 0xC0

def trailingBits (b : UInt8) : Nat := b.toNat - 0x80

/-- The character whose bytes stand at the front, with the number of bytes it takes. -/
def frontChar? : Bytes → Option (Char × Nat)
  | [] => none
  | a :: rest =>
    if a < 0x80 then some (Char.ofNat a.toNat, 1)
    -- A trailing byte, or one that could begin overlong forms only.
    else if a < 0xC2 then none
    else if a < 0xE0 then
      match rest with
      | b :: _ =>
        if isTrailing b then some (Char.ofNat ((a.toNat - 0xC0) * 64 + trailingBits b), 2) else none
      | [] => none
    else if a < 0xF0 then
      match rest with
      | b :: c :: _ =>
        let n := (a.toNat - 0xE0) * 4096 + trailingBits b * 64 + trailingBits c
        if isTrailing b && isTrailing c && 0x800 ≤ n && (n < 0xD800 || 0xE000 ≤ n) then
          some (Char.ofNat n, 3)
        else none
      | _ => none
    else
      match rest with
      | b :: c :: d :: _ =>
        let n := (a.toNat - 0xF0) * 262144 + trailingBits b * 4096 + trailingBits c * 64 +
          trailingBits d
        if isTrailing b && isTrailing c && isTrailing d && 0x10000 ≤ n && n ≤ 0x10FFFF then
          some (Char.ofNat n, 4)
        else none
      | _ => none

/-- Decodes after skipping the bytes that belong to a character already read. -/
def decodeFrom : (skip : Nat) → Bytes → List Char
  | _, [] => []
  | skip + 1, _ :: rest => decodeFrom skip rest
  | 0, b :: rest =>
    match frontChar? (b :: rest) with
    | some (c, n) => c :: decodeFrom (n - 1) rest
    | none => replacement :: decodeFrom 0 rest

/-- Reads bytes as characters, with one replacement character for each byte that fits nowhere. -/
def decode (bytes : Bytes) : List Char := decodeFrom 0 bytes

def encode (cs : List Char) : Bytes := cs.flatMap String.utf8EncodeChar

def bytesOf (s : String) : Bytes := encode s.toList

def textOf (bytes : Bytes) : String := String.ofList (decode bytes)

end SplatLang.Text
