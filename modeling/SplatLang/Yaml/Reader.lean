import SplatLang.Yaml
import SplatLang.Yaml.Lexer

/-!
# From tokens to documents

Only the first document of a text is read, and only the token behind it is looked at. A node that
is left out, as behind a key without a value, is null. An alias means the last anchor of its name
before it; it may not stand inside the collection that this anchor names.

Readers that call themselves take an allowance. Every second step reads a token, so twice the
number of tokens, plus one, is always enough.
-/

namespace SplatLang.Yaml

/-- What is left to read, and the anchors so far, the last one first. An anchor of a collection
that is still open names no node yet. -/
structure Reading where
  tokens : List Token
  anchors : List (String × Option Yaml)

abbrev Reader := StateT Reading Option

namespace Reader

def peek : Reader Token := fun r =>
  match r.tokens with
  | [] => none
  | t :: _ => if t = .invalid then none else some (t, r)

def advance : Reader Unit := fun r => some ((), { r with tokens := r.tokens.drop 1 })

def next : Reader Token := do
  let t ← peek
  advance
  pure t

def accept (t : Token) : Reader Bool := do
  if (← peek) = t then
    advance
    pure true
  else pure false

def expect (t : Token) : Reader Unit := do
  if !(← accept t) then failure

def nextIn (ts : List Token) : Reader Bool := return ts.contains (← peek)

/-! Anchors -/

def bindAnchor (name : Option String) (node : Option Yaml) : Reader Unit := fun r =>
  some ((), match name with
    | none => r
    | some s => { r with anchors := (s, node) :: r.anchors })

/-- Names a collection that was open, unless its name went to another node inside. -/
def closeAnchor (name : Option String) (node : Yaml) : Reader Unit := fun r =>
  some ((), match name with
    | none => r
    | some s =>
      match r.anchors.lookup s with
      | some none => { r with anchors := (s, some node) :: r.anchors }
      | _ => r)

def resolveAlias (name : String) : Reader Yaml := fun r =>
  match r.anchors.lookup name with
  | some (some node) => some (.reference name node, r)
  | _ => none

def collection (name : Option String) (read : Reader Yaml) : Reader Yaml := do
  bindAnchor name none
  let node ← read
  closeAnchor name node
  pure node

/-! Properties -/

def expandTag (handles : List (String × String)) (handle suffix : String) : Reader String :=
  if handle = "" then pure suffix
  else
    match handles.lookup handle with
    | some expansion => pure (expansion ++ suffix)
    | none => failure

def anchor : Reader (Option String) := do
  match ← peek with
  | .anchor name =>
    advance
    pure (some name)
  | _ => pure none

def tag (handles : List (String × String)) : Reader String := do
  match ← peek with
  | .tag handle suffix =>
    advance
    expandTag handles handle suffix
  | _ => pure ""

/-- An anchor and a tag, each of which may be missing, in any order. -/
def properties (handles : List (String × String)) : Reader (Option String × String) := do
  match ← anchor with
  | some name => return (some name, ← tag handles)
  | none =>
    let t ← tag handles
    if t = "" then pure (none, "") else return (← anchor, t)

/-! Nodes -/

/-- Only an anchor or a tag makes a node of nothing. -/
def emptyNode (name : Option String) (t : String) : Reader Yaml := do
  if name.isNone && t = "" then failure
  let here := Yaml.scalar t (t = "") ""
  bindAnchor name (some here)
  pure here

def orNull (ends : List Token) (read : Reader Yaml) : Reader Yaml := do
  if ← nextIn ends then pure .null else read

def valueOrNull (ends : List Token) (read : Reader Yaml) : Reader Yaml := do
  if ← accept .value then orNull ends read else pure .null

mutual

/-- A node. Block collections are allowed only if `block` says so; a sequence whose items stand at
the column of a key has no start of its own and is allowed by `atKey`. -/
def node (handles : List (String × String)) : Nat → (block atKey : Bool) → Reader Yaml
  | 0, _, _ => failure
  | n + 1, block, atKey => do
    match ← peek with
    | .reference name =>
      advance
      resolveAlias name
    | _ =>
      let (name, t) ← properties handles
      match ← peek, block, atKey with
      | .scalar plain text, _, _ =>
        advance
        let here := Yaml.scalar t ((t = "" && plain) || t = "!") text
        bindAnchor name (some here)
        pure here
      | .flowSequence, _, _ =>
        advance
        collection name (.sequence <$> flowItems handles n true)
      | .flowMapping, _, _ =>
        advance
        collection name (.mapping <$> flowEntries handles n true)
      | .blockItem, _, true => collection name (.sequence <$> looseItems handles n)
      | .blockSequence, true, _ =>
        advance
        collection name (.sequence <$> blockItems handles n)
      | .blockMapping, true, _ =>
        advance
        collection name (.mapping <$> blockEntries handles n)
      | _, _, _ => emptyNode name t

def blockEntries (handles : List (String × String)) : Nat → Reader (List (Yaml × Yaml))
  | 0 => failure
  | n + 1 => do
    match ← next with
    | .key =>
      let ends := [.key, .value, .blockEnd]
      let key ← orNull ends (node handles n true true)
      let value ← valueOrNull ends (node handles n true true)
      return (key, value) :: (← blockEntries handles n)
    | .blockEnd => pure []
    | _ => failure

def blockItems (handles : List (String × String)) : Nat → Reader (List Yaml)
  | 0 => failure
  | n + 1 => do
    match ← next with
    | .blockItem =>
      let item ← orNull [.blockItem, .blockEnd] (node handles n true false)
      return item :: (← blockItems handles n)
    | .blockEnd => pure []
    | _ => failure

/-- Items that stand at the column of a key. They have no end of their own. -/
def looseItems (handles : List (String × String)) : Nat → Reader (List Yaml)
  | 0 => failure
  | n + 1 => do
    if ← accept .blockItem then
      let item ← orNull [.blockItem, .key, .value, .blockEnd] (node handles n true false)
      return item :: (← looseItems handles n)
    else pure []

/-- The entries of a flow mapping up to its end. A node without a colon is a key of null. -/
def flowEntries (handles : List (String × String)) : Nat → (first : Bool) →
    Reader (List (Yaml × Yaml))
  | 0, _ => failure
  | n + 1, first => do
    if ← accept .flowMappingEnd then pure []
    else
      if !first then expect .flowItem
      if ← accept .flowMappingEnd then pure []
      else if ← accept .key then
        let key ← orNull [.value, .flowItem, .flowMappingEnd] (node handles n false false)
        let value ← valueOrNull [.flowItem, .flowMappingEnd] (node handles n false false)
        return (key, value) :: (← flowEntries handles n false)
      else
        let key ← node handles n false false
        return (key, .null) :: (← flowEntries handles n false)

/-- The items of a flow sequence up to its end. A key with its value is a mapping of its own; if
the key is left out, the token in its place is dropped. -/
def flowItems (handles : List (String × String)) : Nat → (first : Bool) → Reader (List Yaml)
  | 0, _ => failure
  | n + 1, first => do
    if ← accept .flowSequenceEnd then pure []
    else
      if !first then expect .flowItem
      if ← accept .flowSequenceEnd then pure []
      else if ← accept .key then
        let left ← nextIn [.value, .flowItem, .flowSequenceEnd]
        let key ← if left then (do advance; pure .null) else node handles n false false
        let value ← valueOrNull [.flowItem, .flowSequenceEnd] (node handles n false false)
        return .mapping [(key, value)] :: (← flowItems handles n false)
      else
        let item ← node handles n false false
        return item :: (← flowItems handles n false)

end

/-! Documents -/

def standardHandles : List (String × String) := [("!", "!"), ("!!", standardTag "")]

/-- Reads the directives before a document, of which each may stand once: the version, which has to
be 1.1, and what handles stand for. -/
def directives? : (versioned : Bool) → (handles : List (String × String)) → List Token →
    Option (List (String × String) × List Token)
  | versioned, handles, .version major minor :: rest =>
    if versioned || major ≠ 1 || minor ≠ 1 then none else directives? true handles rest
  | versioned, handles, .tagHandle handle expansion :: rest =>
    if (handles.lookup handle).isSome then none
    else directives? versioned ((handle, expansion) :: handles) rest
  | _, handles, rest => some (handles ++ standardHandles, rest)

def directives : Reader (List (String × String)) := fun r =>
  (directives? false [] r.tokens).map fun (handles, rest) => (handles, { r with tokens := rest })

def endsDocument : Token → Bool
  | .version _ _ | .tagHandle _ _ | .documentStart | .documentEnd | .streamEnd => true
  | _ => false

def root (allowance : Nat) : Reader (Option Yaml) := do
  match ← peek with
  | .streamEnd => pure none
  | .version _ _ | .tagHandle _ _ | .documentStart =>
    let handles ← directives
    expect .documentStart
    if endsDocument (← peek) then pure (some .null)
    else some <$> node handles allowance true false
  | _ => some <$> node standardHandles allowance true false

def document (allowance : Nat) : Reader (Option Document) := do
  let found ← root allowance
  let _ ← peek
  let anchors := (← get).anchors.filterMap fun (name, target) => target.map (name, ·)
  pure (found.map (⟨·, anchors⟩))

end Reader

/-- Reads bytes as a document. The outer `none` means that they are no such text, the inner one
that they hold none. -/
def read (bytes : Text.Bytes) : Option (Option Document) := do
  let tokens := (Source.ofBytes bytes).tokens
  let (found, _) ← (Reader.document (2 * tokens.length + 1)).run ⟨tokens, []⟩
  some found

end SplatLang.Yaml
