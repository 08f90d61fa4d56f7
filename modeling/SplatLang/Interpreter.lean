import SplatLang.Exec
import SplatLang.Program.Parser
import SplatLang.Token.Lexer
import SplatLang.Typing

/-!
# The phases in a row

Reading, parsing, checking and running follow each other, and each starts only if the one before
it succeeded. Every phase announces itself in the trace before it starts.
-/

namespace SplatLang

structure Options where
  /-- The name attached to every place in the source. -/
  file : String := ""
  /-- How many calls may be active at once; no bound unless positive. -/
  maxCallDepth : Int := 0
  /-- How deep calls may nest and how often a loop may go round before a run is given up. -/
  allowance : Nat := 4611686018427387904
  deriving Repr

structure Traced (α : Type) where
  trace : List Event
  result : α

def Traced.andThen {α β : Type} (x : Traced (Except Failure α))
    (next : α → Traced (Except Failure β)) : Traced (Except Failure β) :=
  match x.result with
  | .error e => ⟨x.trace, .error e⟩
  | .ok a => ⟨x.trace ++ (next a).trace, (next a).result⟩

def Fault.raise (f : Fault) : Failure := .traced (.fault f)

def Parsed.result {α : Type} : Parsed α → Except Failure α
  | .ok a _ => .ok a
  | .fault f _ => .error f.report.raise
  | .abort .emptyLabel => .error (.other "a name without text")
  | .abort .exhausted => .error (.other "the parser ran out of steps")

def Ending.failure? {α : Type} : Ending α → Option Failure
  | .done _ => none
  | .fault f => some f.report.raise
  | .refused reason => some (.traced (.context "writing output" reason))
  | .exhausted => some (.other "the run was given up")

structure RunReport where
  output : String
  trace : List Event
  failure : Option Failure

namespace Interpreter

def tokens (src : Source) (opts : Options) : Traced (Except Failure (List Token)) :=
  ⟨[.lexing opts.file], (tokenize opts.file src).mapError fun f => f.report.raise⟩

def parse (src : Source) (opts : Options) : Traced (Except Failure Program) :=
  (tokens src opts).andThen fun ts => ⟨[.parsing ts.length], (parseTokens ts).result⟩

def analyze (p : Program) : Except Failure Program :=
  match Typing.checkProgram p with
  | .ok () => .ok p
  | .error f => .error f.report.raise

def check (src : Source) (opts : Options) : Traced (Except Failure Program) :=
  (parse src opts).andThen fun p => ⟨[.analyzing p.decls.length], analyze p⟩

/-- Runs a program as it is, checked or not. Also gives what is left of the sink, for a later
run to go on with. -/
def executeOn (p : Program) (sink : Sink) (opts : Options) : RunReport × Sink :=
  match Run.program opts.maxCallDepth opts.allowance p { sink } with
  | (ending, m) => (⟨m.output, m.events, ending.failure?⟩, m.sink)

def execute (p : Program) (sink : Sink) (opts : Options) : RunReport :=
  (executeOn p sink opts).1

def run (src : Source) (sink : Sink) (opts : Options) : RunReport :=
  match check src opts with
  | ⟨trace, .error e⟩ => ⟨"", trace, some e⟩
  | ⟨trace, .ok p⟩ =>
    match execute p sink opts with
    | ⟨output, more, failure⟩ => ⟨output, trace ++ more, failure⟩

end Interpreter

end SplatLang
