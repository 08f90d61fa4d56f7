import SplatLang.Text.WholeNumber
import SplatLang.Yaml.Cursor

/-!
# Scalars in the text of a document

Plain and quoted scalars may go on with the next line. One line feed between two lines stands for a
blank and further ones for themselves; the separators of lines and paragraphs always stand for
themselves. A literal block keeps its lines and a folded one joins them.

Readers that call themselves take an allowance, for which the length of the text, plus one, is
always enough.
-/

namespace SplatLang.Yaml

def joint (gap : List Char) : List Char :=
  match gap.filter isBreak with
  | [] => gap
  | ['\n'] => [' ']
  | '\n' :: more => more
  | breaks => breaks

/-! Plain scalars -/

def isIndicator (c : Char) : Bool :=
  "-?:,[]\x7b\x7d#&*!|>'\"%@\x60".toList.contains c

def startsPlain (flow : Bool) (c : Cursor) : Bool :=
  c.aheadIs 0 fun d =>
    if isIndicator d then
      (d = '-' && !c.aheadIs 1 isBlank) || (!flow && (d = '?' || d = ':') && !c.endsAt 1)
    else !isGap d

def endsInFlow (c : Char) : Bool := [',', '?', '[', ']', '\x7b', '\x7d'].contains c

def plainRun (flow : Bool) : List Char → List Char
  | [] => []
  | c :: rest =>
    if isGap c || (c = ':' && rest.head?.all isGap) || (flow && endsInFlow c) then []
    else c :: plainRun flow rest

/-- Whether no tab of a gap stands before a column on a new line. The column of the gap's front is
given once a line end was passed. -/
def tabsFit (least : Nat) : (column : Option Nat) → List Char → Bool
  | _, [] => true
  | column, d :: rest =>
    if isBreak d then tabsFit least (some 0) rest
    else (d ≠ '\t' || column.all (least ≤ ·)) && tabsFit least (column.map (· + 1)) rest

structure PlainRead where
  text : List Char
  /-- Whether a line end was passed behind the last character. -/
  crossed : Bool
  after : Cursor

/-- Reads a plain scalar whose further lines begin at column `least` or behind it. `crossed` tells
whether a line end was passed just before. -/
def plainScalar? (flow : Bool) (least : Nat) : Nat → (crossed : Bool) → Cursor → Option PlainRead
  | 0, _, _ => none
  | n + 1, crossed, c =>
    if c.atMark || c.startsWith '#' then some ⟨[], crossed, c⟩
    else
      let word := plainRun flow c.rest
      let stop := c.skip word.length
      let gap := stop.run isGap
      if gap = [] then some ⟨word, crossed && word = [], stop⟩
      else if !tabsFit least none gap then none
      else
        let ahead := stop.skipGap
        if !flow && ahead.column < least then some ⟨word, gap.any isBreak, ahead⟩
        else do
          let more ← plainScalar? flow least n (gap.any isBreak) ahead
          some { more with
            text := if more.text = [] then word else word ++ joint gap ++ more.text }

/-! Quoted scalars -/

/-- The text between single quotes, behind the first one; two quotes are one. -/
def singleQuoted? : Nat → Cursor → Option (List Char × Cursor)
  | 0, _ => none
  | n + 1, c =>
    match c.rest with
    | [] => none
    | '\'' :: '\'' :: _ => do
      let (more, after) ← singleQuoted? n (c.skip 2)
      some ('\'' :: more, after)
    | '\'' :: _ => some ([], c.skip 1)
    | d :: _ =>
      if isGap d then
        if c.skipGap.atMark then none
        else do
          let (more, after) ← singleQuoted? n c.skipGap
          some (joint (c.run isGap) ++ more, after)
      else do
        let (more, after) ← singleQuoted? n (c.skip 1)
        some (d :: more, after)

def escapes : List (Char × Char) :=
  [('0', '\x00'), ('a', '\x07'), ('b', '\x08'), ('t', '\t'), ('\t', '\t'), ('n', '\n'),
   ('v', '\x0b'), ('f', '\x0c'), ('r', '\r'), ('e', '\x1b'), (' ', ' '), ('"', '"'),
   ('\'', '\''), ('\\', '\\'), ('N', '\u0085'), ('_', '\u00a0'), ('L', '\u2028'),
   ('P', '\u2029')]

def unescape? : List Char → Option (Char × Nat)
  | [] => none
  | c :: rest =>
    if c = 'x' then (Text.numberedChar? 2 rest).map (·, 3)
    else if c = 'u' then (Text.numberedChar? 4 rest).map (·, 5)
    else if c = 'U' then (Text.numberedChar? 8 rest).map (·, 9)
    else (escapes.lookup c).map (·, 1)

/-- The text between double quotes, behind the first one. A backslash at the end of a line joins it
with the next one. -/
def doubleQuoted? : Nat → Cursor → Option (List Char × Cursor)
  | 0, _ => none
  | n + 1, c =>
    match c.rest with
    | [] => none
    | '"' :: _ => some ([], c.skip 1)
    | '\\' :: rest =>
      if rest.head?.any isBreak then
        let next := (c.skip 1).nextLine
        if next.skipGap.atMark then none
        else do
          let (more, after) ← doubleQuoted? n next.skipGap
          some ((next.run isGap).filter isBreak ++ more, after)
      else do
        let (d, length) ← unescape? rest
        let (more, after) ← doubleQuoted? n (c.skip (length + 1))
        some (d :: more, after)
    | d :: _ =>
      if isGap d then
        if c.skipGap.atMark then none
        else do
          let (more, after) ← doubleQuoted? n c.skipGap
          some (joint (c.run isGap) ++ more, after)
      else do
        let (more, after) ← doubleQuoted? n (c.skip 1)
        some (d :: more, after)

/-! Literal and folded blocks -/

/-- What a block keeps of the line ends behind its last line. -/
inductive Chomp
  | strip
  | clip
  | keep
  deriving DecidableEq, Repr

def Chomp.tail (lineEnd breaks : List Char) : Chomp → List Char
  | strip => []
  | clip => lineEnd
  | keep => lineEnd ++ breaks

def chompMark? (c : Cursor) : Option Chomp :=
  match c.rest.head? with
  | some '+' => some .keep
  | some '-' => some .strip
  | _ => none

def indentMark? (c : Cursor) : Option Nat :=
  c.rest.head?.bind fun d => if d.isDigit then some (d.toNat - '0'.toNat) else none

/-- The marks that tell how a block ends and how far it is indented, in any order. -/
def blockHeader (c : Cursor) : Chomp × Option Nat × Cursor :=
  match chompMark? c with
  | some chomp =>
    match indentMark? (c.skip 1) with
    | some indent => (chomp, some indent, c.skip 2)
    | none => (chomp, none, c.skip 1)
  | none =>
    match indentMark? c with
    | none => (.clip, none, c)
    | some indent =>
      match chompMark? (c.skip 1) with
      | some chomp => (chomp, some indent, c.skip 2)
      | none => (.clip, some indent, c.skip 1)

/-- Empty lines before a line of a block: the greatest column reached, the line ends and what
follows. A tab may not stand in the indentation, whose width need not be known. -/
def blockBreaks? (indent : Option Nat) : Nat → (most : Nat) → Cursor →
    Option (Nat × List Char × Cursor)
  | 0, _, _ => none
  | n + 1, most, c =>
    let blanks := (c.run (· = ' ')).length
    let stop := c.skip (indent.elim blanks fun i => min blanks (i - c.column))
    if stop.startsWith '\t' && indent.all (stop.column < ·) then none
    else
      match stop.rest with
      | [] => some (max most stop.column, [], stop)
      | d :: _ =>
        if isBreak d then do
          let (width, breaks, after) ← blockBreaks? indent n (max most stop.column) stop.nextLine
          some (width, d :: breaks, after)
        else some (max most stop.column, [], stop)

/-- The lines of a block from here on. `lineEnd` is the end of the line before and `breaks` are the
line ends of the empty lines between; `afterBlank` tells whether the line before began with a
blank. -/
def blockLines? (folded : Bool) (chomp : Chomp) (indent : Nat) : Nat → (lineEnd : List Char) →
    (afterBlank : Bool) → (breaks : List Char) → Cursor → Option (List Char × Cursor)
  | 0, _, _, _, _ => none
  | n + 1, lineEnd, afterBlank, breaks, c =>
    if c.column = indent && !c.rest.isEmpty then
      let blank := c.aheadIs 0 isBlank
      let lead :=
        if folded && !afterBlank && !blank && lineEnd = ['\n'] then
          if breaks = [] then [' '] else breaks
        else lineEnd ++ breaks
      let line := c.run (!isBreak ·)
      let stop := c.skip line.length
      do
        let (_, nextBreaks, ahead) ←
          blockBreaks? (some indent) (c.rest.length + 1) 0
            (if stop.rest.isEmpty then stop else stop.nextLine)
        let (more, after) ←
          blockLines? folded chomp indent n (stop.rest.take 1) blank nextBreaks ahead
        some (lead ++ line ++ more, after)
    else some (chomp.tail lineEnd breaks, c)

/-- A literal or folded block, behind its mark. Its lines stand at column `least` or behind it; an
indentation that is given counts from the column before. -/
def blockScalar? (folded : Bool) (least : Nat) (c : Cursor) : Option (List Char × Cursor) := do
  let (chomp, given, behind) := blockHeader c
  let body ← if given = some 0 then none else behind.finishLine?
  let wanted := given.map (least - 1 + ·)
  let (most, breaks, ahead) ← blockBreaks? wanted (body.rest.length + 1) 0 body
  blockLines? folded chomp (wanted.getD (max (max most least) 1)) (body.rest.length + 1) [] false
    breaks ahead

end SplatLang.Yaml
