import SplatLang.SumType
import SplatLang.Text.WholeNumber
import SplatLang.Token.Lexer

/-!
# Files of declarations

A file is cut into names, quoted texts and single characters; comments and blanks only separate
them. A mark of the grammar is known by its text, so it may as well be quoted.
-/

namespace SplatLang.SumType

/-- A token: a name, or anything else that is known by its text. Quoted texts are those they stand
for, with bytes that are no characters replaced. -/
structure Lexeme where
  isName : Bool
  text : String
  deriving DecidableEq, Repr

/-! Quoted texts -/

/-- The text up to a closing quote, and what follows. A backslash keeps the character after it from
closing; only a raw text, between backquotes, may hold line feeds. -/
def untilQuote (quote : Char) (raw : Bool) : List Char → Option (List Char × List Char)
  | [] => none
  | c :: rest =>
    if c = quote then some ([], rest)
    else if c = '\n' && !raw then none
    else if c = '\\' && !raw then
      match rest with
      | [] => none
      | d :: more => (untilQuote quote raw more).map fun r => (c :: d :: r.1, r.2)
    else (untilQuote quote raw rest).map fun r => (c :: r.1, r.2)

def numberedByte? (base width : Nat) (cs : List Char) : Option UInt8 := do
  let n ← if cs.length < width then none else Text.inBase? base (cs.take width)
  if n < 256 then some (UInt8.ofNat n) else none

def escapes : List (Char × UInt8) :=
  [('a', 0x07), ('b', 0x08), ('t', 0x09), ('n', 0x0A), ('v', 0x0B), ('f', 0x0C), ('r', 0x0D),
   ('\\', 0x5C)]

/-- An escape, given what follows the backslash: its bytes and its length. Only the double quote
can be escaped, and only where it would close the text. -/
def unescape? (quote : Char) : List Char → Option (Text.Bytes × Nat)
  | [] => none
  | c :: rest =>
    if c = 'x' then (numberedByte? 16 2 rest).map ([·], 3)
    else if c = 'u' then (Text.numberedChar? 4 rest).map (Text.encode [·], 5)
    else if c = 'U' then (Text.numberedChar? 8 rest).map (Text.encode [·], 9)
    else if c = '"' then if quote = '"' then some ([0x22], 1) else none
    else if c.isDigit then (numberedByte? 8 3 (c :: rest)).map ([·], 3)
    else (escapes.lookup c).map ([·], 1)

/-- What the inside of a quoted text stands for. The allowance `n` has to exceed its length. -/
def unquote? (quote : Char) : Nat → List Char → Option Text.Bytes
  | 0, _ => none
  | _ + 1, [] => some []
  | n + 1, c :: rest =>
    if c = '\\' then do
      let (bytes, length) ← unescape? quote rest
      let more ← unquote? quote n (rest.drop length)
      some (bytes ++ more)
    else if c = '"' then none
    else do
      let more ← unquote? quote n rest
      some (Text.encode [c] ++ more)

def quoted? (quote : Char) (cs : List Char) : Option (String × List Char) := do
  let raw := quote = '\x60'
  let (inside, rest) ← untilQuote quote raw cs
  if raw then some (String.ofList inside, rest)
  else do
    let bytes ← unquote? quote (inside.length + 1) inside
    some (Text.textOf bytes, rest)

/-! Tokens -/

def startsName (c : Char) : Bool := c = '_' || Text.isLetter c

def isBlankChar (c : Char) : Bool := c = ' ' || c = '\t' || c = '\n' || c = '\r'

def isQuote (c : Char) : Bool := c = '"' || c = '\'' || c = '\x60'

/-- Skips a comment that runs to its end mark; `none` if the mark is missing. -/
def skipBlock : List Char → Option (List Char)
  | '*' :: '/' :: rest => some rest
  | _ :: rest => skipBlock rest
  | [] => none

/-- Cuts the text into tokens. The allowance `n` has to exceed the length of the text. -/
def lexemes : Nat → List Char → Option (List Lexeme)
  | 0, _ => none
  | _ + 1, [] => some []
  | n + 1, c :: rest =>
    if isBlankChar c then lexemes n rest
    else if startsName c then
      (lexemes n (rest.dropWhile Lexer.isNameChar)).map
        (⟨true, String.ofList (c :: rest.takeWhile Lexer.isNameChar)⟩ :: ·)
    else if c = '/' && rest.head? = some '/' then lexemes n (rest.dropWhile (· ≠ '\n'))
    else if c = '/' && rest.head? = some '*' then
      match skipBlock rest.tail with
      | some more => lexemes n more
      | none => none
    else if isQuote c then
      match quoted? c rest with
      | some (text, more) => (lexemes n more).map (⟨false, text⟩ :: ·)
      | none => none
    else (lexemes n rest).map (⟨false, c.toString⟩ :: ·)

/-- The tokens of a file. There are none for bytes that are no text, or that hold a zero anywhere.
-/
def tokens? (bytes : Text.Bytes) : Option (List Lexeme) :=
  let cs := Text.decode bytes
  let text := if cs.head? = some '\uFEFF' then cs.tail else cs
  if Text.encode cs ≠ bytes ∨ cs.contains '\x00' then none else lexemes (text.length + 1) text

/-! Declarations -/

def mark? (text : String) : List Lexeme → Option (List Lexeme)
  | t :: rest => if t.text = text then some rest else none
  | [] => none

def name? : List Lexeme → Option (String × List Lexeme)
  | t :: rest => if t.isName then some (t.text, rest) else none
  | [] => none

/-- Names that each follow a mark, as many as there are. -/
def namesAfter (mark : String) : List Lexeme → Option (List String × List Lexeme)
  | t :: u :: rest =>
    if t.text = mark then
      if u.isName then (namesAfter mark rest).map fun r => (u.text :: r.1, r.2) else none
    else some ([], t :: u :: rest)
  | ts => some ([], ts)

def embeds? (ts : List Lexeme) : Option (List String × List Lexeme) :=
  match mark? ":" ts with
  | none => some ([], ts)
  | some rest => do
    let (first, rest) ← name? rest
    let (more, rest) ← namesAfter "," rest
    some (first :: more, rest)

def declaration? (ts : List Lexeme) : Option (SumType × List Lexeme) := do
  let ts ← mark? "type" ts
  let (name, ts) ← name? ts
  let (embeds, ts) ← embeds? ts
  let ts ← mark? "=" ts
  let (cases, ts) ← namesAfter "|" ts
  let ts ← mark? ";" ts
  if cases = [] then none else some (⟨name, embeds, cases⟩, ts)

def declarations : Nat → List Lexeme → Option (List SumType)
  | 0, _ => none
  | _ + 1, [] => some []
  | n + 1, ts => do
    let (d, rest) ← declaration? ts
    let more ← declarations n rest
    some (d :: more)

def read : Reader := fun bytes => do
  let ts ← tokens? bytes
  declarations (ts.length + 1) ts

def parse (bytes : Text.Bytes) : Except SumTypeError (List SumType) := parseWith read bytes

end SplatLang.SumType
