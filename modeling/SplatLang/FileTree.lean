import SplatLang.Fault
import SplatLang.Text.Affix
import SplatLang.Text.Utf8

/-!
# Files and directories

A tree of directories stands for the file system, so that what a command does with files is a
function. Paths are looked up component by component: every component but the last has to be a
directory, and a path that ends in a slash names a directory. A file can be opened even if reading
it fails after a while.
-/

namespace SplatLang

open Text

inductive FileError
  | notFound
  | notADirectory
  | isADirectory
  /-- What a device says. -/
  | device (reason : String)
  deriving DecidableEq, Repr

namespace FileError

def text : FileError → String
  | notFound => "no such file or directory"
  | notADirectory => "not a directory"
  | isADirectory => "is a directory"
  | device reason => reason

def on (operation path : String) (e : FileError) : String :=
  operation ++ " " ++ path ++ ": " ++ e.text

end FileError

inductive Node
  /-- With a failure, the content is what can be read until then. -/
  | file (content : Bytes) (failure : Option FileError := none)
  | directory (entries : List (String × Node))
  deriving Repr, Inhabited

namespace Node

def isDirectory : Node → Bool
  | file _ _ => false
  | directory _ => true

def setEntry (name : String) (node : Node) : List (String × Node) → List (String × Node)
  | [] => [(name, node)]
  | (n, old) :: rest => if n = name then (n, node) :: rest else (n, old) :: setEntry name node rest

/-- Puts a node at a place given by names, and makes the directories on the way there. -/
def put (node : Node) : List String → Node → Node
  | [], _ => node
  | name :: rest, parent =>
    match parent with
    | file _ _ => directory [(name, put node rest (directory []))]
    | directory entries =>
      directory (setEntry name (put node rest ((entries.lookup name).getD (directory []))) entries)

mutual

def files : Node → List (List String × Bytes)
  | file content _ => [([], content)]
  | directory entries => filesIn entries

def filesIn : List (String × Node) → List (List String × Bytes)
  | [] => []
  | (name, node) :: rest =>
    (files node).map (fun f => (name :: f.1, f.2)) ++ filesIn rest

end

end Node

structure FileTree where
  root : Node
  /-- The names that lead from the root to the working directory. -/
  workingDir : List String := []
  deriving Repr, Inhabited

namespace FileTree

/-- The components of a path; repeated slashes count once. -/
def components (path : String) : List String :=
  ((splitAt '/' path.toList).filter (· ≠ [])).map String.ofList

def isAbsolute (path : String) : Bool := path.toList.head? = some '/'

def endsInSlash (path : String) : Bool := path.toList.getLast? = some '/'

/-- Follows components from a directory. `trail` holds the places passed, the current one first,
each with its name. -/
def follow : List (String × Node) → List String → Except FileError (List (String × Node))
  | trail, [] => .ok trail
  | [], _ :: _ => .error .notFound
  | (here, node) :: above, name :: rest =>
    match node with
    | .file _ _ => .error .notADirectory
    | .directory entries =>
      if name = "." then follow ((here, node) :: above) rest
      else if name = ".." then follow (if above = [] then [(here, node)] else above) rest
      else
        match entries.lookup name with
        | none => .error .notFound
        | some child => follow ((name, child) :: (here, node) :: above) rest

def start (t : FileTree) (path : String) : List String :=
  if isAbsolute path then [] else t.workingDir

def namesOf (trail : List (String × Node)) : List String := (trail.map Prod.fst).reverse.tail

def locate (t : FileTree) (path : String) : Except FileError (List (String × Node)) :=
  if path = "" then .error .notFound
  else do
    let trail ← follow [("", t.root)] (t.start path ++ components path)
    match trail with
    | (_, .file _ _) :: _ => if endsInSlash path then .error .notADirectory else .ok trail
    | _ => .ok trail

def find (t : FileTree) (path : String) : Except FileError Node := do
  let trail ← t.locate path
  match trail with
  | (_, node) :: _ => .ok node
  | [] => .error .notFound

/-- Opens a path. A directory can be opened, but reading it fails. -/
def openText (t : FileTree) (path : String) : Except FileError (Bytes × Option FileError) := do
  match ← t.find path with
  | .file content failure => .ok (content, failure)
  | .directory _ => .ok ([], some .isADirectory)

/-- The content of a file. The error tells the operation that failed. -/
def read (t : FileTree) (path : String) : Except (String × FileError) Bytes :=
  match t.find path with
  | .ok (.file content none) => .ok content
  | .ok (.file _ (some e)) => .error ("read", e)
  | .ok (.directory _) => .error ("read", .isADirectory)
  | .error e => .error ("open", e)

def list (t : FileTree) (path : String) : Except FileError (List (String × Node)) := do
  match ← t.find path with
  | .file _ _ => .error .notADirectory
  | .directory entries => .ok entries

def doesExist (t : FileTree) (path : String) : Bool := (t.find path).isOk

def parentAndName (path : String) : Option (List String × String) :=
  match (components path).reverse with
  | [] => none
  | name :: above => some (above.reverse, name)

/-- Writes a file, and makes it if need be, so that it can be read. Its directory has to exist. -/
def write (t : FileTree) (path : String) (content : Bytes) : Except FileError FileTree :=
  match t.locate path with
  | .ok ((name, .file old failure) :: above) =>
    .ok { t with
      root := Node.put (.file content) (namesOf ((name, .file old failure) :: above)) t.root }
  | .ok _ => .error .isADirectory
  | .error e =>
    match e, parentAndName path with
    -- Only the last component may be missing.
    | .notFound, some (parent, name) => do
      match ← follow [("", t.root)] (t.start path ++ parent) with
      | (here, .directory entries) :: above =>
        if endsInSlash path then .error .isADirectory
        else
          .ok { t with
            root := Node.put (.file content)
              (namesOf ((here, .directory entries) :: above) ++ [name]) t.root }
      | _ => .error .notADirectory
    | e, _ => .error e

def changedSince (t before : FileTree) : List (List String × Bytes) :=
  t.root.files.filter fun f => before.root.files.lookup f.1 ≠ some f.2

end FileTree

end SplatLang
