import SplatLang.Text.Affix
import SplatLang.Yaml.Cursor
import SplatLang.Yaml.Resolved

/-!
# Writing documents

A text is written plain if it reads back as the same text, between single quotes if its shape
forbids the plain form, and between double quotes if it would read back as something else or holds
characters that cannot be shown. A text with a line feed becomes a literal block. A line that is
longer than 80 columns is broken at the next blank.
-/

namespace SplatLang.Yaml

/-- What a document is written from. Keys are plain words. -/
inductive Field
  | text (key value : String)
  /-- A value that is written as it is spelled. -/
  | word (key value : String)
  | group (key : String) (fields : List Field)
  deriving Repr

def isShown (c : Char) : Bool :=
  c = '\n' || (' ' ≤ c && c ≤ '~') || ('\u00A0' ≤ c && c ≤ '\uFFFD' && c ≠ '\uFEFF')

/-- Sixty-based numbers, which other readers take for numbers. -/
def isSixtyBased (s : String) : Bool :=
  match Text.splitAt ':' (Text.cutSign s.toList).2 with
  | [] => false
  | [_] => false
  | first :: groups =>
    let isGroup (g : List Char) : Bool :=
      match g with
      | [a] => a.isDigit
      | [a, b] => '0' ≤ a && a ≤ '5' && b.isDigit
      | _ => false
    let last := groups.getLast?.getD []
    first.head?.any Char.isDigit && first.all (fun c => c.isDigit || c = '_') &&
      groups.dropLast.all isGroup && isGroup (last.takeWhile (· ≠ '.')) &&
      (last.dropWhile (· ≠ '.')).tail.all (fun c => c.isDigit || c = '_')

/-- Whether a plain spelling would still be read as a text. -/
def staysText (s : String) : Bool :=
  Resolved.ofSpelling true s = .text s && !isSixtyBased s

def marksFront (c : Char) (next : Option Char) : Bool :=
  "#,[]\x7b\x7d&*!|>'\"%@\x60".toList.contains c ||
    (['?', ':', '-'].contains c && next.all isBlank)

/-- Whether some character behind the front would be read as a mark: a colon before a blank or the
end, or a hash after a blank. -/
def marksInside : (previous : Char) → List Char → Bool
  | _, [] => false
  | previous, c :: rest =>
    (c = ':' && rest.head?.all isBlank) || (c = '#' && isBlank previous) || marksInside c rest

def plainAllowed (cs : List Char) : Bool :=
  match cs with
  | [] => true
  | c :: rest =>
    !marksFront c rest.head? && !marksInside c rest && c ≠ ' ' && cs.getLast? ≠ some ' ' &&
      !cs.any isBreak && !(["---".toList, "...".toList].contains (cs.take 3))

def hasPair (p q : Char → Bool) : List Char → Bool
  | a :: b :: rest => (p a && q b) || hasPair p q (b :: rest)
  | _ => false

inductive Style
  | plain
  | single
  | double
  | literal
  deriving DecidableEq, Repr

def styleOf (s : String) : Style :=
  let cs := s.toList
  if !cs.all isShown || hasPair (· = ' ') isBreak cs then .double
  else if cs.contains '\n' then if cs.getLast? = some ' ' then .double else .literal
  else if !staysText s then .double
  else if plainAllowed cs then .plain
  else if hasPair isBreak (· = ' ') cs then .double
  else .single

def hexDigits (width n : Nat) : List Char :=
  (List.range width).reverse.map fun k => (Nat.digitChar ((n >>> (4 * k)) % 16)).toUpper

def escape (c : Char) : List Char :=
  '\\' ::
    match c.toNat with
    | 0x00 => ['0']
    | 0x07 => ['a']
    | 0x08 => ['b']
    | 0x09 => ['t']
    | 0x0A => ['n']
    | 0x0B => ['v']
    | 0x0C => ['f']
    | 0x0D => ['r']
    | 0x1B => ['e']
    | 0x22 => ['"']
    | 0x5C => ['\\']
    | 0x85 => ['N']
    | 0xA0 => ['_']
    | 0x2028 => ['L']
    | 0x2029 => ['P']
    | n =>
      if n ≤ 0xFF then 'x' :: hexDigits 2 n
      else if n ≤ 0xFFFF then 'u' :: hexDigits 4 n
      else 'U' :: hexDigits 8 n

def escaped (c : Char) : List Char :=
  if isShown c && !isBreak c && c ≠ '"' && c ≠ '\\' then [c] else escape c

def lineWidth : Nat := 80

def newLine (indent : Nat) : List Char := '\n' :: List.replicate indent ' '

/-- Writes characters from a column on and breaks a line that is full at a blank. `afterBlank`
tells whether the character before was a blank. A line may begin with a blank only behind the
character `guard`, so without one a line is never broken at the first of several blanks. -/
def fold (spell : Char → List Char) (guard : Option Char) (indent : Nat) :
    (column : Nat) → (afterBlank : Bool) → List Char → List Char
  | _, _, [] => []
  | column, afterBlank, c :: rest =>
    if c = ' ' then
      let doubled := rest.head? = some ' '
      if lineWidth < column && !afterBlank && !rest.isEmpty && (guard.isSome || !doubled) then
        let mark := if doubled then guard.toList else []
        newLine indent ++ mark ++ fold spell guard indent (indent + mark.length) true rest
      else ' ' :: fold spell guard indent (column + 1) true rest
    else spell c ++ fold spell guard indent (column + (spell c).length) false rest

def quoteTwice (c : Char) : List Char := if c = '\'' then ['\'', '\''] else [c]

def linesOf : List Char → List (List Char)
  | [] => []
  | c :: rest =>
    if isBreak c then [c] :: linesOf rest
    else
      match linesOf rest with
      | [] => [[c]]
      | line :: lines => (c :: line) :: lines

def indented (indent : Nat) (write : List Char → List Char) (lines : List (List Char)) :
    List Char :=
  lines.flatMap fun line =>
    if line.head?.all isBreak then line else List.replicate indent ' ' ++ write line

/-- A text between single quotes, which may hold line ends that are no line feeds. -/
def singleQuoted (indent column : Nat) (cs : List Char) : List Char :=
  match linesOf cs with
  | [] => ['\'', '\'']
  | line :: lines =>
    '\'' :: fold quoteTwice none indent (column + 1) false line ++
      indented indent (fold quoteTwice none indent indent false) lines ++ ['\'']

/-- A text between double quotes. One that begins with a mark of its encoding is escaped
throughout. -/
def doubleQuoted (indent column : Nat) (cs : List Char) : List Char :=
  let body :=
    if cs.head? = some '\uFEFF' then cs.flatMap escape
    else fold escaped (some '\\') indent (column + 1) false cs
  '"' :: body ++ ['"']

/-- What stands behind the mark of a literal block: the indentation, if the text begins with a
blank or a line end, and what becomes of the line ends at its end. -/
def literalHints (cs : List Char) : List Char :=
  (if cs.head?.any (fun c => c = ' ' || isBreak c) then ['2'] else []) ++
  match cs.reverse with
  | [] => ['-']
  | last :: before =>
    if !isBreak last then ['-'] else if before.head?.all isBreak then ['+'] else []

def literal (indent : Nat) (cs : List Char) : List Char :=
  '|' :: literalHints cs ++ '\n' :: indented indent id (linesOf cs)

def writeText (indent column : Nat) (s : String) : List Char :=
  match styleOf s with
  | .plain => fold (fun c => [c]) none indent column false s.toList
  | .single => singleQuoted indent column s.toList
  | .double => doubleQuoted indent column s.toList
  | .literal => literal indent s.toList

/-- A text as the value of a key, up to the next line. A literal block may end with a line end of
its own. -/
def writeValue (indent column : Nat) (s : String) : List Char :=
  let written := writeText indent column s
  if styleOf s = .literal && written.getLast?.any isBreak then written else written ++ ['\n']

def writeFields (indent : Nat) : List Field → List Char
  | [] => []
  | .text key value :: rest =>
    List.replicate indent ' ' ++ key.toList ++ [':', ' '] ++
      writeValue (indent + 2) (indent + key.length + 2) value ++ writeFields indent rest
  | .word key value :: rest =>
    List.replicate indent ' ' ++ key.toList ++ [':', ' '] ++ value.toList ++ ['\n'] ++
      writeFields indent rest
  | .group key fields :: rest =>
    List.replicate indent ' ' ++ key.toList ++ [':'] ++
      (if fields.isEmpty then [' ', '\x7b', '\x7d', '\n']
        else '\n' :: writeFields (indent + 2) fields) ++
      writeFields indent rest

def write (fields : List Field) : String := String.ofList (writeFields 0 fields)

end SplatLang.Yaml
