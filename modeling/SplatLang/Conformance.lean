import SplatLang.FileTree
import SplatLang.Interpreter
import SplatLang.Outcome
import SplatLang.Path
import SplatLang.Text.Percent

/-!
# Conformance cases

A case is a source file whose name tells how its run is to end. If it is to end well, its output
is compared with the text of a second file beside it, carriage returns left aside. The cases of a
directory run in the order of their names, and a report sums them up.
-/

namespace SplatLang

open Text

structure CaseResult where
  path : String
  expected : Outcome
  actual : Outcome
  failure : Option Failure
  output : String
  passed : Bool
  /-- Why the case passed or failed. -/
  detail : String

/-- The phase of a fault that the case did not ask for. -/
def CaseResult.falseThrow (r : CaseResult) : Option Phase :=
  if r.actual = r.expected then none
  else
    match r.actual with
    | .raised p => some p
    | .internal | .success => none

namespace Conformance

/-- The cases directly inside a directory, by path in increasing order. -/
def discover (t : FileTree) (dir : String) : Except FileError (List String) := do
  let entries ← t.list dir
  let names := (entries.filter fun e => !e.2.isDirectory && hasSuffix e.1 ".splat").map Prod.fst
  .ok ((names.map (Path.join dir)).mergeSort (fun a b => decide (a ≤ b)))

def outputPath (path : String) : String := trimSuffix path ".splat" ++ ".out"

def dropReturns (bytes : Bytes) : Bytes := bytes.filter (· ≠ 13)

def compareOutput (t : FileTree) (path output : String) : Bool × String :=
  match t.read (outputPath path) with
  | .error _ => (false, "failed (expected output " ++ outputPath path ++ " not found)")
  | .ok want =>
    if dropReturns want = dropReturns (bytesOf output) then
      (true, "passed (output matches expected results)")
    else (false, "failed (output does not match expected results)")

def judge (t : FileTree) (path : String) (expected actual : Outcome) (output : String) :
    Bool × String :=
  if expected ≠ .success then
    if actual = expected then
      (true, "passed (proper fault raised during phase " ++ toString expected.number ++ ")")
    else (false, "failed (fault was expected during phase " ++ toString expected.number ++ ")")
  else if actual ≠ .success then
    (false, "failed (fault raised when execution should have been successful)")
  else compareOutput t path output

def sourceOf (path : String) : Bytes × Option FileError → Source
  | (content, failure) => ⟨content, failure.map (FileError.on "read" path)⟩

/-- Runs a case. It fails only if the case cannot be run at all. -/
def runCase (t : FileTree) (path : String) (opts : Options) :
    Traced (Except Failure CaseResult) :=
  match Outcome.expected (Path.base path) with
  | .error e => ⟨[], .error e⟩
  | .ok expected =>
    match t.openText path with
    | .error e => ⟨[], .error (.other (e.on "open" path))⟩
    | .ok opened =>
      let file := if opts.file = "" then Path.base path else opts.file
      let run := Interpreter.run (sourceOf path opened) .endless { opts with file }
      let actual := Outcome.ofFailure run.failure
      match judge t path expected actual run.output with
      | (passed, detail) =>
        ⟨run.trace, .ok ⟨path, expected, actual, run.failure, run.output, passed, detail⟩⟩

/-! Reports -/

def passedCount (results : List CaseResult) : Nat := results.countP (·.passed)

def tally (results : List CaseResult) (o : Outcome) : Nat × Nat :=
  let asked := results.filter (·.expected = o)
  (passedCount asked, asked.length)

def falseThrows (results : List CaseResult) (p : Phase) : Nat :=
  results.countP fun r => r.falseThrow = some p

def share (n total : Nat) : String := " (" ++ percent n total ++ " %)\n"

def tallyLines (results : List CaseResult) (o : Outcome) : String :=
  let (passed, total) := tally results o
  "  " ++ padRight 21 (o.name ++ ":") ++ toString passed ++ " / " ++ toString total ++
    share passed total ++
    match o with
    | .raised p => "    false throws: " ++ toString (falseThrows results p) ++ "\n"
    | .internal | .success => ""

def summary (results : List CaseResult) : String :=
  let total := toString results.length
  let passed := passedCount results
  "---------------------------\n" ++
  "FINAL SPLAT TESTING RESULTS\n" ++
  "---------------------------\n" ++
  "Total tests cases:   " ++ total ++ "\n" ++
  "Test cases run:      " ++ total ++ "\n" ++
  "Test cases passed:   " ++ toString passed ++ share passed results.length ++
  "Results by case\n" ++
  String.join (Outcome.all.map (tallyLines results))

/-! Running a directory -/

def caseNotes (r : CaseResult) : String :=
  match r.failure with
  | some e => " >>> " ++ Phase.nameOrNone e.phase? ++ " error: " ++ e.text ++ "\n"
  | none => if r.output = "" then "" else r.output ++ "\n"

structure SuiteRun where
  text : String
  trace : List Event
  results : Except Failure (List CaseResult)

def SuiteRun.after (text : String) (trace : List Event) (run : SuiteRun) : SuiteRun :=
  ⟨text ++ run.text, trace ++ run.trace, run.results⟩

/-- Runs the cases that are left. `done` holds the results so far, the last one first. -/
def runCases (t : FileTree) (opts : Options) (verbose : Bool) :
    (done : List CaseResult) → List String → SuiteRun
  | done, [] => ⟨summary done.reverse, [], .ok done.reverse⟩
  | done, path :: rest =>
    let heading :=
      "Test Case " ++ toString (done.length + 1) ++ ": " ++ Path.base path ++ "..."
    -- Each case goes by its own name, whatever the options say.
    match runCase t path { opts with file := "" } with
    | ⟨trace, .error e⟩ => ⟨heading ++ "error!\n", trace, .error (.traced e)⟩
    | ⟨trace, .ok r⟩ =>
      (runCases t opts verbose (r :: done) rest).after
        (heading ++ r.detail ++ "\n" ++ if verbose then caseNotes r else "")
        (trace ++ [.judged (Path.base path) r.expected.name r.actual.name])

def run (t : FileTree) (dir : String) (opts : Options) (verbose : Bool) : SuiteRun :=
  let opening := "Opening test directory..."
  match discover t dir with
  | .error e =>
    ⟨opening ++ "error!\n", [],
      .error (.traced (.context ("cannot open test directory " ++ dir) (.other (e.on "open" dir))))⟩
  | .ok paths =>
    (runCases t opts verbose [] paths).after
      (opening ++ "success\nNumber of tests found: " ++ toString paths.length ++
        "\nRunning tests...\n") []

end Conformance

end SplatLang
