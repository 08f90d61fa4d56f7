import SplatLang.Command

/-!
# The program

A command works on a tree of files. The program takes the files that a command may look at into
such a tree, runs the command, writes the files that it changed and shows what it says. With
`adtgen` as its first argument it generates code instead.
-/

namespace SplatLang.Disk

open Text

def absolute (names : List String) : String := "/" ++ "/".intercalate names

def isDirectory (path : String) : IO Bool := do
  ((← IO.currentDir).join path).isDir

def doesExist (path : String) : IO Bool := do
  ((← IO.currentDir).join path).pathExists

/-- Every place on the way to a path, from the root on. -/
def placesTo (workingDir : List String) (path : String) : List (List String) :=
  let start := if FileTree.isAbsolute path then [] else workingDir
  let names := start ++ FileTree.components path
  (List.range (names.length + 1)).map fun n =>
    FileTree.components (Path.clean (absolute (names.take n)))

def casesIn (names : List String) : IO (List (List String)) := do
  if ← isDirectory (absolute names) then
    let entries ← ((← IO.currentDir).join (absolute names)).readDir
    let found := entries.toList.map (·.fileName)
    return (found.filter fun f => hasSuffix f ".splat" || hasSuffix f ".out").map (names ++ [·])
  else return []

/-- Takes one place into a tree: a file with its content, a directory without its entries. -/
def takePlace (t : FileTree) (names : List String) : IO FileTree := do
  let path := absolute names
  if t.doesExist path then return t
  else if ← isDirectory path then
    return { t with root := Node.put (.directory []) names t.root }
  else if ← doesExist path then
    let content := (← IO.FS.readBinFile path).data.toList
    return { t with root := Node.put (.file content) names t.root }
  else return t

def takePath (t : FileTree) (path : String) : IO FileTree := do
  let places := placesTo t.workingDir path
  let cases ← casesIn (places.getLast?.getD [])
  (places ++ cases).foldlM takePlace t

/-- The files that a command with these arguments may look at. -/
def filesFor (args : List String) : IO FileTree := do
  let start : FileTree := ⟨.directory [], FileTree.components (← IO.currentDir).toString⟩
  let t ← (Command.pathsOf args).foldlM takePath start
  match Config.load t (Command.configPath args) with
  | .ok c => (Command.configuredPaths c).foldlM takePath t
  | .error _ => return t

def store (before after : FileTree) : IO Unit := do
  for (names, content) in after.changedSince before do
    IO.FS.writeBinFile (absolute names) ⟨content.toArray⟩

end SplatLang.Disk

open SplatLang in
def main (args : List String) : IO UInt32 := do
  let files ← Disk.filesFor args
  let r :=
    match args with
    | "adtgen" :: rest => SumType.command files rest
    | _ => Command.perform files args
  Disk.store files r.files
  IO.print r.stdout
  IO.eprint r.stderr
  return UInt32.ofNat r.exit
