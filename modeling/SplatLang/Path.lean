import SplatLang.FileTree

/-!
# Paths as texts

These operations look at the text of a path only and never at the files there.
-/

namespace SplatLang.Path

open Text

/-- Takes a component into a cleaned path, given in reverse. -/
def step (rooted : Bool) (done : List String) (c : String) : List String :=
  if c = "." then done
  else if c = ".." then
    match done with
    | [] => if rooted then [] else [".."]
    | last :: above => if last = ".." then ".." :: done else above
  else c :: done

/-- The shortest path that says the same: single slashes, no dots, and no step down and up
again. -/
def clean (path : String) : String :=
  let rooted := FileTree.isAbsolute path
  let cs := ((FileTree.components path).foldl (step rooted) []).reverse
  let body := "/".intercalate cs
  if rooted then "/" ++ body else if cs = [] then "." else body

def join (dir name : String) : String :=
  if dir = "" then (if name = "" then "" else clean name)
  else if name = "" then clean dir
  else clean (dir ++ "/" ++ name)

def base (path : String) : String :=
  if path = "" then "."
  else (FileTree.components path).getLast?.getD "/"

end SplatLang.Path
