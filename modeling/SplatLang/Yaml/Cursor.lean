/-!
# Places in a document

A cursor is a place in the text of a document together with what stands from there on. Line ends
are line feeds and the two separators of lines and paragraphs; the other kinds have been unified
before.
-/

namespace SplatLang.Yaml

def isBreak (c : Char) : Bool := c = '\n' || c = '\u2028' || c = '\u2029'

def isBlank (c : Char) : Bool := c = ' ' || c = '\t'

/-- Blanks and line ends, which stand between the words of a scalar. -/
def isGap (c : Char) : Bool := isBlank c || isBreak c

def isWordChar (c : Char) : Bool := c.isAlphanum || c = '_' || c = '-'

structure Cursor where
  /-- How many characters stand before. -/
  index : Nat
  line : Nat
  column : Nat
  rest : List Char
  deriving Repr, Inhabited

namespace Cursor

def start (text : List Char) : Cursor := ⟨0, 0, 0, text⟩

def skip (n : Nat) (c : Cursor) : Cursor := ⟨c.index + n, c.line, c.column + n, c.rest.drop n⟩

def run (p : Char → Bool) (c : Cursor) : List Char := c.rest.takeWhile p

def skipRun (p : Char → Bool) (c : Cursor) : Cursor := c.skip (c.run p).length

def nextLine (c : Cursor) : Cursor := ⟨c.index + 1, c.line + 1, 0, c.rest.drop 1⟩

def skipGap (c : Cursor) : Cursor :=
  (c.run isGap).foldl (fun here d => if isBreak d then here.nextLine else here.skip 1) c

/-- Whether the character `n` places ahead belongs to a class; there may be none. -/
def aheadIs (n : Nat) (p : Char → Bool) (c : Cursor) : Bool := (c.rest.drop n).head?.any p

def startsWith (d : Char) (c : Cursor) : Bool := c.aheadIs 0 (· = d)

/-- Whether a blank, a line end or the end of the text stands `n` places ahead. -/
def endsAt (n : Nat) (c : Cursor) : Bool := (c.rest.drop n).head?.all isGap

/-- Whether the mark of a document's start or end stands here. -/
def atMark (c : Cursor) : Bool :=
  c.column = 0 && ["---".toList, "...".toList].contains (c.rest.take 3) && c.endsAt 3

def skipRemark (c : Cursor) : Cursor := if c.startsWith '#' then c.skipRun (!isBreak ·) else c

def finishLine? (c : Cursor) : Option Cursor :=
  let stop := (c.skipRun isBlank).skipRemark
  match stop.rest with
  | [] => some stop
  | d :: _ => if isBreak d then some stop.nextLine else none

end Cursor

end SplatLang.Yaml
