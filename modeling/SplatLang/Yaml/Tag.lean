import SplatLang.Text.WholeNumber
import SplatLang.Yaml.Cursor
import SplatLang.Yaml.Encoding
import SplatLang.Yaml.Token

/-!
# Names in the text of a document

Anchors, aliases, tags and directives. A tag is a handle and a suffix, and the suffix may hold
percent escapes; the handle is empty where the suffix is the whole tag.
-/

namespace SplatLang.Yaml

/-! Anchors -/

def anchorName? (c : Cursor) : Option (String × Cursor) :=
  let name := c.run isWordChar
  let after := c.skip name.length
  let ends := after.endsAt 0 || after.aheadIs 0 ("?:,]\x7d%@\x60".toList.contains ·)
  if name = [] || !ends then none else some (String.ofList name, after)

/-! Tags -/

def isSuffixChar (c : Char) : Bool :=
  isWordChar c || ";/?:@&=+$,.!~*'()[]".toList.contains c

def escapedByte? (c : Cursor) : Option UInt8 :=
  match c.rest with
  | '%' :: a :: b :: _ => (Text.inBase? 16 [a, b]).map UInt8.ofNat
  | _ => none

/-- Escapes of the further bytes of a character. -/
def trailingEscapes? : (count : Nat) → Cursor → Option (Text.Bytes × Cursor)
  | 0, c => some ([], c)
  | n + 1, c => do
    let b ← (escapedByte? c).filter Text.isTrailing
    let (more, after) ← trailingEscapes? n (c.skip 3)
    some (b :: more, after)

def suffixBytes? : Nat → Cursor → Option (Text.Bytes × Cursor)
  | 0, _ => none
  | n + 1, c =>
    match c.rest with
    | [] => some ([], c)
    | d :: _ =>
      if d = '%' then do
        let b ← (escapedByte? c).filter (0 < byteCount ·)
        let (further, behind) ← trailingEscapes? (byteCount b - 1) (c.skip 3)
        let (more, after) ← suffixBytes? n behind
        some (b :: further ++ more, after)
      else if isSuffixChar d then do
        let (more, after) ← suffixBytes? n (c.skip 1)
        some (Text.encode [d] ++ more, after)
      else some ([], c)

def suffix? (c : Cursor) : Option (String × Cursor) :=
  (suffixBytes? (c.rest.length + 1) c).map fun (bytes, after) => (Text.textOf bytes, after)

def nonemptySuffix? (c : Cursor) : Option (String × Cursor) :=
  (suffix? c).filter fun (s, _) => s ≠ ""

/-- A word between exclamation marks, or only the first of them. -/
def handleAt (c : Cursor) : List Char :=
  let word := (c.skip 1).run isWordChar
  if (c.skip (word.length + 1)).startsWith '!' then '!' :: word ++ ['!'] else ['!']

def tag? (c : Cursor) : Option (Token × Cursor) := do
  let (token, after) ←
    if c.aheadIs 1 (· = '<') then do
      let (whole, stop) ← nonemptySuffix? (c.skip 2)
      if stop.startsWith '>' then some (Token.tag "" whole, stop.skip 1) else none
    else
      match handleAt c with
      | ['!'] => do
        let (suffix, stop) ← suffix? (c.skip 1)
        -- The mark alone is a tag of its own.
        some (if suffix = "" then .tag "" "!" else .tag "!" suffix, stop)
      | handle => do
        let (suffix, stop) ← nonemptySuffix? (c.skip handle.length)
        some (.tag (String.ofList handle) suffix, stop)
  if after.endsAt 0 then some (token, after) else none

/-! Directives -/

/-- A number of a version, which has one digit or two. -/
def versionNumber? (c : Cursor) : Option (Nat × Cursor) :=
  let digits := c.run Char.isDigit
  if digits = [] || 2 < digits.length then none
  else some (Nat.ofDigitChars 10 digits 0, c.skip digits.length)

def version? (c : Cursor) : Option (Token × Cursor) := do
  let (major, behind) ← versionNumber? (c.skipRun isBlank)
  let (minor, after) ← if behind.startsWith '.' then versionNumber? (behind.skip 1) else none
  some (.version major minor, after)

def tagHandle? (c : Cursor) : Option (Token × Cursor) := do
  let start := c.skipRun isBlank
  let handle := handleAt start
  let behind := start.skip handle.length
  if start.startsWith '!' && behind.aheadIs 0 isBlank then do
    let (expansion, after) ← nonemptySuffix? (behind.skipRun isBlank)
    if after.endsAt 0 then some (.tagHandle (String.ofList handle) expansion, after) else none
  else none

def directive? (c : Cursor) : Option (Token × Cursor) := do
  let name := c.run isWordChar
  let behind := c.skip name.length
  let (token, after) ←
    if !behind.endsAt 0 then none
    else if name = "YAML".toList then version? behind
    else if name = "TAG".toList then tagHandle? behind
    else none
  let next ← after.finishLine?
  some (token, next)

end SplatLang.Yaml
