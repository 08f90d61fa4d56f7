import SplatLang.Yaml.Resolved

/-!
# Configuration documents

Documents are in YAML 1.1. An alias carries the node that its anchor names where the alias stands,
so a document has no cycles and every question about it is answered by recursion.

A mapping fills a record one change after the other. The key `<<` merges: its value is another
mapping, or several, whose changes come in its place. Keys may repeat across merged mappings but
not within one mapping.
-/

namespace SplatLang

inductive Yaml
  /-- A scalar with its tag, which is empty if there is none. -/
  | scalar (tag : String) (plain : Bool) (text : String)
  | sequence (items : List Yaml)
  | mapping (entries : List (Yaml × Yaml))
  /-- An alias, with the node it stands for. -/
  | reference (name : String) (target : Yaml)
  deriving Repr, Inhabited

namespace Yaml

def null : Yaml := .scalar "" true ""

def isMapping : Yaml → Bool
  | mapping _ => true
  | _ => false

/-! Scalars -/

/-- A node as a text: any scalar but a null one is taken by its spelling. -/
def asText? : Yaml → Option String
  | scalar tag plain s =>
    match Resolved.ofScalar? tag plain s with
    | none => none
    | some .null => some ""
    | some (.text t) => some t
    | some _ => some s
  | reference _ target => target.asText?
  | _ => none

def asBoolean? : Yaml → Option Bool
  | scalar tag plain s =>
    match Resolved.ofScalar? tag plain s with
    | some .null => some false
    | some (.boolean b) => some b
    | _ => none
  | reference _ target => target.asBoolean?
  | _ => none

def asInteger? : Yaml → Option Int
  | scalar tag plain s =>
    match Resolved.ofScalar? tag plain s with
    | some .null => some 0
    | some (.integer n) => if n < Text.bound64 then some n else none
    | some (.decimal whole) => whole
    | _ => none
  | reference _ target => target.asInteger?
  | _ => none

/-! Records -/

inductive Change
  | set (key : String) (value : Yaml)
  /-- Empties every field. -/
  | clear
  deriving Repr

def isMerge : Yaml → Bool
  | scalar tag plain s => s = "<<" && (plain || tag = standardTag "merge")
  | _ => false

mutual

/-- The changes that a node makes to a record; a null one empties it. `names` tells which anchors
name a mapping at the end of the document. -/
def changes? (names : String → Bool) : Yaml → Option (List Change)
  | scalar tag plain s => if Resolved.ofScalar? tag plain s = some .null then some [.clear] else none
  | sequence _ => none
  | mapping entries => entryChanges? names [] entries
  | reference _ target => changes? names target

def entryChanges? (names : String → Bool) : (seen : List String) → List (Yaml × Yaml) →
    Option (List Change)
  | _, [] => some []
  | seen, (key, value) :: rest =>
    if isMerge key then do
      let here ← mergedChanges? names value
      let more ← entryChanges? names seen rest
      some (here ++ more)
    else do
      let name ← key.asText?
      let more ← if seen.contains name then none else entryChanges? names (name :: seen) rest
      some (.set name value :: more)

def mergedChanges? (names : String → Bool) : Yaml → Option (List Change)
  | scalar _ _ _ => none
  | sequence items => itemChanges? names items
  | mapping entries => entryChanges? names [] entries
  | reference name target => if names name then changes? names target else none

/-- The changes of several merged mappings. The first mapping comes last, so that it prevails. -/
def itemChanges? (names : String → Bool) : List Yaml → Option (List Change)
  | [] => some []
  | item :: rest => do
    let later ← itemChanges? names rest
    let here ←
      match item with
      | mapping entries => entryChanges? names [] entries
      | reference name target => if names name then changes? names target else none
      | _ => none
    some (later ++ here)

end

/-! Limits on aliases -/

/-- How many nodes were visited while a record was filled, and how many of them behind an alias. -/
structure Visits where
  all : Nat
  aliased : Nat
  deriving DecidableEq, Repr

/-- Counts a visit. A long reading that is nearly all behind aliases is given up. -/
def Visits.add? (behindAlias : Bool) (v : Visits) : Option Visits :=
  let next : Visits := ⟨v.all + 1, if behindAlias then v.aliased + 1 else v.aliased⟩
  if 100 < next.aliased ∧ 1000 < next.all ∧ 99 * next.all < 100 * next.aliased then none
  else some next

mutual

def visit? (behindAlias : Bool) : Yaml → Visits → Option Visits
  | mapping entries, v => do visitEntries? behindAlias entries (← v.add? behindAlias)
  | reference _ target, v => do visit? true target (← v.add? behindAlias)
  | scalar _ _ _, v => v.add? behindAlias
  | sequence _, v => v.add? behindAlias

def visitEntries? (behindAlias : Bool) : List (Yaml × Yaml) → Visits → Option Visits
  | [], v => some v
  | (key, value) :: rest, v => do
    let next ←
      if isMerge key then visitMerged? behindAlias value v
      else do visit? behindAlias value (← visit? behindAlias key v)
    visitEntries? behindAlias rest next

/-- A sequence of merged mappings is no visit of its own, and its last mapping comes first. -/
def visitMerged? (behindAlias : Bool) : Yaml → Visits → Option Visits
  | sequence items, v => visitItems? behindAlias items v
  | mapping entries, v => do visitEntries? behindAlias entries (← v.add? behindAlias)
  | reference _ target, v => do visit? true target (← v.add? behindAlias)
  | scalar _ _ _, v => some v

def visitItems? (behindAlias : Bool) : List Yaml → Visits → Option Visits
  | [], v => some v
  | item :: rest, v => do visit? behindAlias item (← visitItems? behindAlias rest v)

end

/-- A document, with the nodes that its anchors name at its end, the last one first. -/
structure Document where
  root : Yaml
  anchors : List (String × Yaml)
  deriving Repr

namespace Document

def namesMapping (d : Document) (name : String) : Bool := (d.anchors.lookup name).any isMapping

/-- The changes that a node of a document makes to a record. -/
def changes? (d : Document) (node : Yaml) : Option (List Change) := node.changes? d.namesMapping

def isBounded (d : Document) : Bool := (visit? false d.root ⟨1, 0⟩).isSome

end Document

end Yaml

end SplatLang
