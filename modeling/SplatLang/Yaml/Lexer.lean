import SplatLang.Yaml.Scalar
import SplatLang.Yaml.Tag

/-!
# From text to tokens

What begins a line, or follows a mark that allows it, may turn out to be a key: a colon has to
follow on the same line and within 1024 characters. Such a place is remembered as a candidate, one
for each nested flow collection, and the colon puts the token of the key before it. In a block
collection everything at the column of its keys has to be a key, and such a candidate is required.

A block collection ends where a token stands to the left of its column. Inside flow collections
indentation says nothing.

Reading stops at the first fault. Tokens from the first candidate on are then not known for
certain, and an invalid token takes their place.
-/

namespace SplatLang.Yaml

/-- A place where a key may have begun. -/
structure Candidate where
  /-- How many tokens stand before. -/
  number : Nat
  index : Nat
  line : Nat
  column : Nat
  required : Bool
  deriving Repr

structure Lexer where
  cursor : Cursor
  /-- Columns of the open block collections, the innermost first. -/
  columns : List Nat
  /-- The candidate of the innermost flow collection, or of the block. -/
  candidate : Option Candidate
  /-- The candidates around the open flow collections, the innermost first. -/
  outer : List (Option Candidate)
  keyAllowed : Bool
  /-- The tokens so far, the last one first. -/
  tokens : List Token
  count : Nat
  deriving Repr

namespace Lexer

def start (s : Source) : Lexer := ⟨.start s.text, [], none, [], true, [], 0⟩

def inFlow (l : Lexer) : Bool := !l.outer.isEmpty

def inner (l : Lexer) : Nat := l.columns.head?.elim 0 (· + 1)

def emit (t : Token) (after : Cursor) (l : Lexer) : Lexer :=
  { l with cursor := after, tokens := t :: l.tokens, count := l.count + 1 }

/-! Candidates -/

def Candidate.isStale (here : Cursor) (k : Candidate) : Bool :=
  k.line < here.line || k.index + 1024 < here.index

/-- Forgets a candidate that is no key, which may not be a required one. -/
def forget? (k : Option Candidate) : Option (Option Candidate) :=
  if k.any (·.required) then none else some none

def forgetStale? (here : Cursor) (k : Option Candidate) : Option (Option Candidate) :=
  if k.any (Candidate.isStale here) then forget? k else some k

def dropStale? (l : Lexer) : Option Lexer := do
  let candidate ← forgetStale? l.cursor l.candidate
  let outer ← l.outer.mapM (forgetStale? l.cursor)
  some { l with candidate, outer }

def dropCandidate? (l : Lexer) : Option Lexer := do
  let candidate ← forget? l.candidate
  some { l with candidate }

def markCandidate? (l : Lexer) : Option Lexer :=
  if l.keyAllowed then do
    let cleared ← l.dropCandidate?
    let c := l.cursor
    let required := !l.inFlow && l.columns.head? = some c.column
    some { cleared with candidate := some ⟨l.count, c.index, c.line, c.column, required⟩ }
  else some l

/-! Indentation -/

def closeBlocks (least : Nat) (l : Lexer) : Lexer :=
  if l.inFlow then l
  else
    let closed := l.columns.takeWhile (least ≤ ·)
    { l with
      columns := l.columns.drop closed.length
      tokens := List.replicate closed.length .blockEnd ++ l.tokens
      count := l.count + closed.length }

/-- Begins a block collection unless one of its column, or one behind it, is open. -/
def openBlock (t : Token) (l : Lexer) : Lexer :=
  let column := l.cursor.column
  if l.inFlow || column < l.inner then l
  else { l.emit t l.cursor with columns := column :: l.columns }

/-- Puts the token of a key before a candidate, and that of a mapping if it begins with this key. -/
def insertKey (k : Candidate) (l : Lexer) : Lexer :=
  let later := l.count - k.number
  let opens := !l.inFlow && l.inner ≤ k.column
  let marks := if opens then [.key, .blockMapping] else [.key]
  { l with
    columns := if opens then k.column :: l.columns else l.columns
    candidate := none
    tokens := l.tokens.take later ++ marks ++ l.tokens.drop later
    count := l.count + marks.length }

/-! Tokens -/

/-- Skips blanks, comments and line ends, and tells whether a key may stand behind them. Where a
key may stand, tabs are skipped only inside a flow collection. If the text begins with a mark of
its encoding, which `marked` says, then one character is dropped at the front of every line while
the text has enough of them. -/
def toToken (flow marked : Bool) : Nat → (keyAllowed : Bool) → Cursor → Bool × Cursor
  | 0, keyAllowed, c => (keyAllowed, c)
  | n + 1, keyAllowed, c =>
    let dropped := marked && c.column = 0 && (c.index = 0 || 4 ≤ c.rest.length)
    let front := if dropped then c.skip 1 else c
    let stop :=
      (front.skipRun fun d => d = ' ' || (d = '\t' && (flow || !keyAllowed))).skipRemark
    if stop.aheadIs 0 isBreak then toToken flow marked n (keyAllowed || !flow) stop.nextLine
    else (keyAllowed, stop)

def finish? (l : Lexer) : Option Lexer := do
  let cleared ← (l.closeBlocks 0).dropCandidate?
  some (cleared.emit .streamEnd cleared.cursor)

def outermost? (read? : Cursor → Option (Token × Cursor)) (l : Lexer) : Option Lexer := do
  let cleared ← (l.closeBlocks 0).dropCandidate?
  let (t, after) ← read? l.cursor
  some { cleared.emit t after with keyAllowed := false }

/-- The start of a flow collection, which may be a key as a whole. -/
def openFlow? (t : Token) (l : Lexer) : Option Lexer := do
  let marked ← l.markCandidate?
  some { marked.emit t (l.cursor.skip 1) with
    candidate := none, outer := marked.candidate :: marked.outer, keyAllowed := true }

def closeFlow? (t : Token) (l : Lexer) : Option Lexer := do
  let cleared ← l.dropCandidate?
  let next := { cleared.emit t (l.cursor.skip 1) with keyAllowed := false }
  some (match l.outer with
    | [] => next
    | k :: outer => { next with candidate := k, outer })

def flowItem? (l : Lexer) : Option Lexer := do
  let cleared ← l.dropCandidate?
  some { cleared.emit .flowItem (l.cursor.skip 1) with keyAllowed := true }

def openAtMark? (t : Token) (l : Lexer) : Option Lexer :=
  if l.inFlow || l.keyAllowed then some (l.openBlock t) else none

def blockItem? (l : Lexer) : Option Lexer := do
  let cleared ← (← l.openAtMark? .blockSequence).dropCandidate?
  some { cleared.emit .blockItem (l.cursor.skip 1) with keyAllowed := true }

def key? (l : Lexer) : Option Lexer := do
  let cleared ← (← l.openAtMark? .blockMapping).dropCandidate?
  some { cleared.emit .key (l.cursor.skip 1) with keyAllowed := !l.inFlow }

def value? (l : Lexer) : Option Lexer :=
  match l.candidate with
  | some k => some { (l.insertKey k).emit .value (l.cursor.skip 1) with keyAllowed := false }
  | none => do
    let opened ← l.openAtMark? .blockMapping
    some { opened.emit .value (l.cursor.skip 1) with keyAllowed := !l.inFlow }

def maybeKey? (read? : Cursor → Option (Token × Cursor)) (l : Lexer) : Option Lexer := do
  let marked ← l.markCandidate?
  let (t, after) ← read? l.cursor
  some { marked.emit t after with keyAllowed := false }

def block? (folded : Bool) (l : Lexer) : Option Lexer := do
  let cleared ← l.dropCandidate?
  let (text, after) ← blockScalar? folded l.inner (l.cursor.skip 1)
  some { cleared.emit (.scalar false (String.ofList text)) after with keyAllowed := true }

def plain? (l : Lexer) : Option Lexer := do
  let marked ← l.markCandidate?
  let r ← plainScalar? l.inFlow l.inner (l.cursor.rest.length + 1) false l.cursor
  some { marked.emit (.scalar true (String.ofList r.text)) r.after with keyAllowed := r.crossed }

def quoted? (read? : Nat → Cursor → Option (List Char × Cursor)) (c : Cursor) :
    Option (Token × Cursor) :=
  (read? (c.rest.length + 1) (c.skip 1)).map fun (text, after) =>
    (.scalar false (String.ofList text), after)

def fetch? (l : Lexer) : Option Lexer :=
  let c := l.cursor
  match c.rest with
  | [] => l.finish?
  | d :: _ =>
    if c.column = 0 && d = '%' then l.outermost? fun c => directive? (c.skip 1)
    else if c.atMark then
      l.outermost? fun c => some (if d = '-' then .documentStart else .documentEnd, c.skip 3)
    else if d = '[' then l.openFlow? .flowSequence
    else if d = '\x7b' then l.openFlow? .flowMapping
    else if d = ']' then l.closeFlow? .flowSequenceEnd
    else if d = '\x7d' then l.closeFlow? .flowMappingEnd
    else if d = ',' then l.flowItem?
    else if d = '-' && c.endsAt 1 then l.blockItem?
    else if d = '?' && (l.inFlow || c.endsAt 1) then l.key?
    else if d = ':' && (l.inFlow || c.endsAt 1) then l.value?
    else if d = '*' then
      l.maybeKey? fun c => (anchorName? (c.skip 1)).map fun (name, after) => (.reference name, after)
    else if d = '&' then
      l.maybeKey? fun c => (anchorName? (c.skip 1)).map fun (name, after) => (.anchor name, after)
    else if d = '!' then l.maybeKey? tag?
    else if !l.inFlow && d = '|' then l.block? false
    else if !l.inFlow && d = '>' then l.block? true
    else if d = '\'' then l.maybeKey? (quoted? singleQuoted?)
    else if d = '"' then l.maybeKey? (quoted? doubleQuoted?)
    else if startsPlain l.inFlow c then l.plain?
    else none

/-- Whether so many characters are left, or the text is whole. Just before a fault no token is
read. -/
def isReadable (s : Source) (needed : Nat) (l : Lexer) : Bool :=
  s.whole || needed ≤ l.cursor.rest.length

def step? (s : Source) (l : Lexer) : Option Lexer := do
  let marked := s.text.head? = some '\uFEFF'
  let (keyAllowed, cursor) :=
    toToken l.inFlow marked (l.cursor.rest.length + 1) l.keyAllowed l.cursor
  let fresh ← { l with keyAllowed, cursor }.dropStale?
  let next ←
    if fresh.isReadable s 4 then (fresh.closeBlocks (cursor.column + 1)).fetch? else none
  if next.isReadable s 1 then some next else none

def cutShort (l : Lexer) : List Token :=
  let numbers := (l.candidate :: l.outer).filterMap fun k => k.map (·.number)
  l.tokens.reverse.take (numbers.foldl min l.count) ++ [.invalid]

/-- The tokens from here on, with all that came before. The allowance has to exceed the length of
the text. -/
def run (s : Source) : Nat → Lexer → List Token
  | 0, l => l.cutShort
  | n + 1, l =>
    match l.dropStale? with
    | none => l.cutShort
    | some fresh =>
      match fresh.step? s with
      | none => fresh.cutShort
      | some next =>
        if next.tokens.head? = some .streamEnd then next.tokens.reverse else run s n next

end Lexer

def Source.tokens (s : Source) : List Token := Lexer.run s (s.text.length + 1) (.start s)

end SplatLang.Yaml
