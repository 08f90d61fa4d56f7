import SplatLang.Text.Utf16

/-!
# The bytes of a document

A document is UTF-8 unless it begins with the mark of UTF-16. It may hold no control characters but
tabs and line ends. Line ends become line feeds, except for the two separators of lines and
paragraphs, which stay what they are.

Bytes are taken in pieces, and a fault spoils the piece that it is found in but not those before.
So what stands behind a document may be of any kind, as long as it is not read.
-/

namespace SplatLang.Yaml

def isAllowed (c : Char) : Bool :=
  c = '\t' || c = '\n' || c = '\r' || (' ' ≤ c && c ≤ '~') || c = '\u0085' ||
    ('\u00A0' ≤ c && c ≤ '\uFFFD') || 0x10000 ≤ c.toNat

def unifyBreaks : List Char → List Char
  | [] => []
  | '\r' :: '\n' :: rest => '\n' :: unifyBreaks rest
  | c :: rest => (if c = '\r' || c = '\u0085' then '\n' else c) :: unifyBreaks rest

structure Source where
  text : List Char
  /-- Whether the text goes on to the end of the document, and not only to a fault. -/
  whole : Bool
  deriving Repr

def decodeUtf8? (bytes : Text.Bytes) : Option (List Char) :=
  let cs := Text.decode bytes
  if Text.encode cs = bytes ∧ cs.all isAllowed then some cs else none

def byteCount (first : UInt8) : Nat :=
  if first < 0x80 then 1
  else if first < 0xC0 then 0
  else if first < 0xE0 then 2
  else if first < 0xF0 then 3
  else if first < 0xF8 then 4
  else 0

/-- The characters of a piece, up to one whose last bytes are in the next piece, and the number of
bytes they take. -/
def pieceChars? : Nat → Text.Bytes → Option (List Char × Nat)
  | _, [] => some ([], 0)
  | 0, _ => none
  | n + 1, b :: rest =>
    if byteCount b = 0 then none
    else if rest.length + 1 < byteCount b then some ([], 0)
    else do
      let (c, width) ← (Text.frontChar? (b :: rest)).filter fun (c, _) => isAllowed c
      let (more, used) ← pieceChars? n (rest.drop (width - 1))
      some (c :: more, width + used)

def pieceSize : Nat := 512

/-- The characters of all pieces before the first fault. -/
def readableChars : Nat → (size : Nat) → Text.Bytes → List Char
  | 0, _, _ => []
  | n + 1, size, bytes =>
    match pieceChars? size (bytes.take size) with
    | none => []
    | some (cs, used) => cs ++ readableChars n pieceSize (bytes.drop used)

def utf8Source (skipped : Nat) (bytes : Text.Bytes) : Source :=
  match decodeUtf8? bytes with
  | some cs => ⟨unifyBreaks cs, true⟩
  | none => ⟨unifyBreaks (readableChars (bytes.length + 1) (pieceSize - skipped) bytes), false⟩

def utf16Source (lowFirst : Bool) (bytes : Text.Bytes) : Source :=
  match (Text.decodeUtf16? lowFirst bytes).filter (·.all isAllowed) with
  | some cs => ⟨unifyBreaks cs, true⟩
  | none => ⟨[], false⟩

def Source.ofBytes : Text.Bytes → Source
  | 0xFF :: 0xFE :: rest => utf16Source true rest
  | 0xFE :: 0xFF :: rest => utf16Source false rest
  | 0xEF :: 0xBB :: 0xBF :: rest => utf8Source 3 rest
  | bytes => utf8Source 0 bytes

end SplatLang.Yaml
