import SplatLang.Fault
import SplatLang.Text.Blank
import SplatLang.Text.DecimalDigit
import SplatLang.Text.Letter
import SplatLang.Text.Utf8
import SplatLang.Token

/-!
# From text to tokens

A source is read line by line. `cut` takes one piece from the front of a line: a blank, a string
literal, a word or a symbol, always the longest one that fits. The pieces that are not blank are
the tokens of the line. A fault ends the line it is found in, and reading may go on with the line
after it, which is why `LineReader` says what is left.
-/

namespace SplatLang

open Text

inductive LexCause
  | unreadable (reason : String)
  | invalidCharacter (c : Char)
  | invalidInString (c : Char)
  | unfinishedString
  | invalidOperator (pair : String)
  deriving DecidableEq, Repr

def LexCause.message : LexCause → String
  | unreadable reason => "Error reading file: " ++ reason
  | invalidCharacter c => "Invalid character: " ++ c.toString
  | invalidInString c => "Invalid character in string literal: " ++ c.toString
  | unfinishedString => "Unfinished string literal"
  | invalidOperator pair => "Invalid operator sequence: " ++ pair ++ "="

abbrev LexFault := At LexCause

def LexFault.report (f : LexFault) : Fault := ⟨.lex, f.cause.message, f.location⟩

namespace Lexer

def isNameChar (c : Char) : Bool := c = '_' || isLetter c || isDecimalDigit c

/-- The kind of a word is decided by its text; a number has ASCII digits only. -/
def wordKind (word : List Char) : TokenKind :=
  if word.all Char.isDigit then .int
  else if isKeyword (String.ofList word) then .keyword
  else .ident

def symbolKind? (c : Char) : Option TokenKind :=
  if ['+', '-', '*', '/', '%', '=', '<', '>'].contains c then some .operator
  else if ['(', ')', ';', ',', ':'].contains c then some .delimiter
  else none

/-- Symbols that join with a following `=` to an operator of two characters. -/
def joinsEquals (c : Char) : Bool := ['=', '<', '>', ':'].contains c

/-- Characters that end a string literal, or may not stand in one. -/
def endsString (c : Char) : Bool := c = '"' || c = '\\' || c = '\r'

/-- A piece from the front of a line, and the text behind it. Blanks have no kind. -/
structure Piece where
  kind : Option TokenKind
  text : List Char
  rest : List Char
  deriving DecidableEq, Repr

def cutString (cs : List Char) : Except LexCause Piece :=
  match cs.dropWhile (! endsString ·) with
  | [] => .error .unfinishedString
  | c :: rest =>
    if c = '"' then
      .ok ⟨some .string, '"' :: cs.takeWhile (! endsString ·) ++ ['"'], rest⟩
    else .error (.invalidInString c)

def cutWord (c : Char) (cs : List Char) : Piece :=
  let word := c :: cs.takeWhile isNameChar
  ⟨some (wordKind word), word, cs.dropWhile isNameChar⟩

/-- Cuts a symbol. The comparisons of two characters may not be followed by one more `=`. -/
def cutSymbol (c : Char) (cs : List Char) : Except LexCause Piece :=
  match symbolKind? c, cs with
  | none, _ => .error (.invalidCharacter c)
  | some kind, [] => .ok ⟨some kind, [c], []⟩
  | some kind, d :: rest =>
    if d = '=' && joinsEquals c then
      -- `:==` is an assignment sign and an equals sign, but `===` is nothing.
      if c ≠ ':' && rest.head? = some '=' then .error (.invalidOperator (String.ofList [c, d]))
      else .ok ⟨some .operator, [c, d], rest⟩
    else .ok ⟨some kind, [c], d :: rest⟩

def cut (c : Char) (cs : List Char) : Except LexCause Piece :=
  if isBlank c then .ok ⟨none, [c], cs⟩
  else if c = '"' then cutString cs
  else if isNameChar c then .ok (cutWord c cs)
  else cutSymbol c cs

theorem length_dropWhile_le (p : Char → Bool) (cs : List Char) :
    (cs.dropWhile p).length ≤ cs.length := by
  induction cs with
  | nil => simp
  | cons c cs ih => simp only [List.dropWhile_cons]; split <;> grind

theorem cutString_rest_lt {cs : List Char} {p : Piece} (h : cutString cs = .ok p) :
    p.rest.length < cs.length := by
  have hle := length_dropWhile_le (! endsString ·) cs
  unfold cutString at h
  split at h
  · simp at h
  · next c rest hd =>
    rw [hd] at hle
    split at h
    · simp only [Except.ok.injEq] at h
      subst h
      exact Nat.lt_of_succ_le hle
    · simp at h

theorem cutSymbol_rest_le {c : Char} {cs : List Char} {p : Piece} (h : cutSymbol c cs = .ok p) :
    p.rest.length ≤ cs.length := by
  unfold cutSymbol at h
  repeat' split at h
  all_goals simp only [reduceCtorEq, Except.ok.injEq] at h
  all_goals subst h; simp

/-- A piece is never empty, so the text behind it is shorter than the line. -/
theorem cut_rest_lt {c : Char} {cs : List Char} {p : Piece} (h : cut c cs = .ok p) :
    p.rest.length < (c :: cs).length := by
  unfold cut at h
  rw [List.length_cons]
  split at h
  · simp only [Except.ok.injEq] at h
    subst h
    simp
  · split at h
    · exact Nat.lt_succ_of_lt (cutString_rest_lt h)
    · split at h
      · simp only [Except.ok.injEq] at h
        subst h
        exact Nat.lt_succ_of_le (length_dropWhile_le _ _)
      · exact Nat.lt_succ_of_le (cutSymbol_rest_le h)

/-- The tokens of a line. `line` is its number, and `offset` is the number of characters of the
line that stand before `cs`. -/
def lexLine (file : String) (line : Nat) (offset : Nat) (cs : List Char) :
    Except LexFault (List Token) :=
  match cs with
  | [] => .ok []
  | c :: rest =>
    let here : Position := ⟨line, offset + 1, file⟩
    match h : cut c rest with
    | .error cause => .error ⟨cause, here⟩
    | .ok piece =>
      have := cut_rest_lt h
      match lexLine file line (offset + piece.text.length) piece.rest with
      | .error fault => .error fault
      | .ok tokens =>
        match piece.kind with
        | none => .ok tokens
        | some kind => .ok (⟨kind, String.ofList piece.text, here⟩ :: tokens)
termination_by cs.length
decreasing_by assumption

end Lexer

/-- A text to be read. `failure` gives the reason why reading stops after `bytes`, if it stops
before the end of the text is reached. -/
structure Source where
  bytes : Bytes
  failure : Option String := none
  deriving Repr

structure LineReader where
  file : String
  /-- How many lines were read. -/
  count : Nat
  /-- The complete lines not yet read, without their line feeds. -/
  lines : List Bytes
  /-- The text after the last line feed. -/
  tail : Bytes
  failure : Option String
  deriving Repr

namespace LineReader

def lineFeed : UInt8 := 10

def carriageReturn : UInt8 := 13

/-- Cuts a text at its line feeds into complete lines and the text behind the last one. -/
def splitLines : Bytes → List Bytes × Bytes
  | [] => ([], [])
  | b :: rest =>
    match splitLines rest with
    | (lines, tail) =>
      if b = lineFeed then ([] :: lines, tail)
      else
        match lines with
        | [] => ([], b :: tail)
        | line :: lines => ((b :: line) :: lines, tail)

def dropCarriageReturn (line : Bytes) : Bytes :=
  if line.getLast? = some carriageReturn then line.dropLast else line

def lexBytes (file : String) (line : Nat) (bytes : Bytes) : Except LexFault (List Token) :=
  Lexer.lexLine file line 0 (decode (dropCarriageReturn bytes))

def ofSource (file : String) (src : Source) : LineReader :=
  match splitLines src.bytes with
  | (lines, tail) => ⟨file, 0, lines, tail, src.failure⟩

/-- Reads complete lines up to the end or the first fault. Also gives the number of the last line
read and the lines behind it. -/
def lexLines (file : String) : Nat → List Bytes → Except LexFault (List Token) × Nat × List Bytes
  | count, [] => (.ok [], count, [])
  | count, line :: lines =>
    match lexBytes file (count + 1) line with
    | .error fault => (.error fault, count + 1, lines)
    | .ok tokens =>
      match lexLines file (count + 1) lines with
      | (.ok more, left) => (.ok (tokens ++ more), left)
      | (.error fault, left) => (.error fault, left)

/-- All tokens up to the end of the source or the first fault, and what is left behind it. An
incomplete last line is read only if the source ends there; a source that cannot be read to its
end is at fault as a whole. -/
def tokens (r : LineReader) : Except LexFault (List Token) × LineReader :=
  match lexLines r.file r.count r.lines with
  | (.error fault, count, lines) => (.error fault, { r with count, lines })
  | (.ok tokens, count, lines) =>
    match r.failure with
    -- What stands behind the last complete line is lost.
    | some reason =>
      (.error ⟨.unreadable reason, ⟨1, 1, r.file⟩⟩, { r with count, lines, tail := [] })
    | none =>
      if r.tail = [] then (.ok tokens, { r with count, lines })
      else
        (match lexBytes r.file (count + 1) r.tail with
          | .error fault => .error fault
          | .ok more => .ok (tokens ++ more),
         { r with count := count + 1, lines, tail := [] })

end LineReader

def tokenize (file : String) (src : Source) : Except LexFault (List Token) :=
  (LineReader.ofSource file src).tokens.1

end SplatLang
