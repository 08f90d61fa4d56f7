import SplatLang.Command.Flags
import SplatLang.Config
import SplatLang.Conformance
import SplatLang.Program.Dump
import SplatLang.Program.Render
import SplatLang.SumType.Code

/-!
# Commands

A command reads a tree of files and its arguments, and gives an exit code, what it prints, and the
files it leaves behind. A fault of a source program is told in one line and makes the exit code 1,
like every other failure.
-/

namespace SplatLang

namespace Command

structure Result where
  exit : Nat
  stdout : String := ""
  stderr : String := ""
  files : FileTree

def usage : String := "usage: splatgo [--config FILE] [--trace] COMMAND [arguments]\n" ++
  "commands: init, run FILE, check FILE, tokens FILE, ast [--dump] FILE, test [DIR], fetch\n"

def failureText (e : Failure) : String :=
  match e.phase? with
  | some p => p.name ++ " error: " ++ e.text ++ "\n"
  | none => e.text ++ "\n"

structure Setup where
  config : String
  trace : Bool

def Setup.log (s : Setup) (events : List Event) : String :=
  if s.trace then Event.log "splatgo: " events else ""

def helpFlags : List (String × FlagKind) := [("help", .switch), ("h", .switch)]

def globalFlags : List (String × FlagKind) := [("config", .text), ("trace", .switch)] ++ helpFlags

def Setup.ofFlags (f : Flags) : Setup :=
  ⟨(f.text? "config").getD Config.fileName, f.switch "trace"⟩

def depthFlag : String := "max-call-depth"

/-- The flags of a command, or `none` if there is no such command. -/
def commandFlags? (name : String) : Option (List (String × FlagKind)) :=
  match name with
  | "init" | "check" | "tokens" | "fetch" => some helpFlags
  | "run" | "test" => some ((depthFlag, .number) :: helpFlags)
  | "ast" => some (("dump", .switch) :: helpFlags)
  | "help" | "h" => some helpFlags
  | _ => none

def wantsHelp (f : Flags) : Bool := f.switch "help" || f.switch "h"

/-! Single commands -/

def fail (t : FileTree) (message : String) : Result := { exit := 1, stderr := message, files := t }

def withConfig (t : FileTree) (setup : Setup) (next : Config → Result) : Result :=
  match Config.load t setup.config with
  | .ok c => next c
  | .error e => fail t (Config.loadMessage setup.config e ++ "\n")

/-- The interpreter's options, where a flag goes before the configuration. -/
def optionsFor (c : Config) (flags : Flags) (file : String) : Options :=
  { file, maxCallDepth := (flags.number? depthFlag).getD c.maxCallDepth }

/-- Opens the source that the arguments name and loads the configuration, in this order. -/
def withSource (t : FileTree) (setup : Setup) (flags : Flags)
    (next : Source → Options → Result) : Result :=
  match flags.rest.head?.getD "" with
  | "" => fail t "no source file provided\n"
  | file =>
    match t.openText file with
    | .error e => fail t (e.on "open" file ++ "\n")
    | .ok opened =>
      withConfig t setup fun c =>
        next (Conformance.sourceOf file opened) (optionsFor c flags file)

def report {α : Type} (t : FileTree) (setup : Setup) (r : Traced (Except Failure α))
    (text : α → String) : Result :=
  let log := setup.log r.trace
  match r.result with
  | .ok a => { exit := 0, stdout := text a, stderr := log, files := t }
  | .error e => { exit := 1, stderr := log ++ failureText e, files := t }

def init (t : FileTree) (setup : Setup) : Result :=
  if t.doesExist setup.config then fail t (setup.config ++ " already exists\n")
  else
    match Config.default.store t setup.config with
    | .ok files => { exit := 0, files }
    | .error e => fail t (Config.storeMessage setup.config e ++ "\n")

def run (t : FileTree) (setup : Setup) (flags : Flags) : Result :=
  withSource t setup flags fun src opts =>
    let r := Interpreter.run src .endless opts
    let log := setup.log r.trace
    match r.failure with
    | none => { exit := 0, stdout := r.output, stderr := log, files := t }
    | some e => { exit := 1, stdout := r.output, stderr := log ++ failureText e, files := t }

def check (t : FileTree) (setup : Setup) (flags : Flags) : Result :=
  withSource t setup flags fun src opts =>
    report t setup (Interpreter.check src opts) fun _ => opts.file ++ ": ok\n"

def tokens (t : FileTree) (setup : Setup) (flags : Flags) : Result :=
  withSource t setup flags fun src opts =>
    report t setup (Interpreter.tokens src opts) dumpTokens

def ast (t : FileTree) (setup : Setup) (flags : Flags) : Result :=
  withSource t setup flags fun src opts =>
    report t setup (Interpreter.parse src opts) fun p =>
      if flags.switch "dump" then p.dump else p.render

/-- Where the cases to run are: the argument, or else the configured directory. -/
def testDirectory (c : Config) (flags : Flags) : String :=
  match flags.rest.head?.getD "" with
  | "" => c.tests
  | dir => dir

def test (t : FileTree) (setup : Setup) (flags : Flags) : Result :=
  withConfig t setup fun c =>
    let r := Conformance.run t (testDirectory c flags) (optionsFor c flags "") c.verbose
    let log := setup.log r.trace
    match r.results with
    | .error e => { exit := 1, stdout := r.text, stderr := log ++ failureText e, files := t }
    | .ok results =>
      let exit := if Conformance.passedCount results = results.length then 0 else 1
      { exit, stdout := r.text, stderr := log, files := t }

def fetch (t : FileTree) (setup : Setup) : Result :=
  withConfig t setup fun c =>
    match c.suite with
    | none => fail t ("no suite configured in " ++ setup.config ++ "\n")
    | some s =>
      match s.refusal? t with
      | some e => fail t (failureText e)
      | none => fail t ("git clone " ++ s.url ++ ": no connection\n")

/-! Command lines -/

def help (t : FileTree) (flags : Flags) : Result :=
  match flags.rest with
  | [] => { exit := 0, stdout := usage, files := t }
  | topic :: _ =>
    if (commandFlags? topic).isSome then { exit := 0, stdout := usage, files := t }
    else fail t ("No help topic for '" ++ topic ++ "'\n")

def dispatch (t : FileTree) (setup : Setup) (name : String) (flags : Flags) : Result :=
  match name with
  | "init" => init t setup
  | "run" => run t setup flags
  | "check" => check t setup flags
  | "tokens" => tokens t setup flags
  | "ast" => ast t setup flags
  | "test" => test t setup flags
  | "fetch" => fetch t setup
  | _ => help t flags

def perform (t : FileTree) (args : List String) : Result :=
  match readFlags globalFlags [] args with
  | none => fail t usage
  | some flags =>
    if wantsHelp flags then { exit := 0, stdout := usage, files := t }
    else
      match flags.rest with
      | [] => { exit := 0, stdout := usage, files := t }
      | name :: rest =>
        match commandFlags? name with
        | none => fail t ("No help topic for '" ++ name ++ "'\n")
        | some kinds =>
          match readFlags kinds [] rest with
          | none => fail t usage
          | some own =>
            if wantsHelp own then { exit := 0, stdout := usage, files := t }
            else dispatch t (Setup.ofFlags flags) name own

def configPath (args : List String) : String :=
  match readFlags globalFlags [] args with
  | some flags => (Setup.ofFlags flags).config
  | none => Config.fileName

/-- The paths that a command may look at before it knows its configuration. -/
def pathsOf (args : List String) : List String := configPath args :: args

def configuredPaths (c : Config) : List String :=
  c.tests :: (c.suite.map SuiteSource.dir).toList

end Command

namespace SumType

def usage : String := "usage: adtGen <input.adt> <output.go> <package>\n"

/-- Reads declarations from one file and writes their code to another. Every failure makes the
exit code 2. -/
def command (t : FileTree) (args : List String) : Command.Result :=
  let fail (message : String) : Command.Result := { exit := 2, stderr := message, files := t }
  match args with
  | [input, output, package] =>
    match t.read input with
    | .error (operation, e) => fail (e.on operation input ++ "\n")
    | .ok bytes =>
      match parse bytes with
      | .error e => fail (e.text ++ "\n")
      | .ok ds =>
        match generate? package ds with
        | none => fail "malformed code\n"
        | some code =>
          match t.write output (Text.bytesOf code) with
          | .error e => fail (e.on "open" output ++ "\n")
          | .ok files => { exit := 0, files }
  | _ => fail usage

end SumType

end SplatLang
