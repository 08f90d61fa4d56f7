import SplatLang.Proofs.Interpreter.Files
import SplatLang.Proofs.Program.RoundTrip
import SplatLang.Proofs.Program.Texts

/-!
# Layout has no meaning

Where the tokens of a source stand does not matter. Two sources whose tokens agree in kind and
text are the same source once every token is put at one and the same place, and no phase decides
by a place; so both are parsed, checked and run alike, and differ at most in the places they
report. What a parsed program renders to has the tokens of its source, hence runs as the source
does.
-/

namespace SplatLang

variable {ts us : List Token} {opts : Options}

-- ---------------------------------------------------------------------------
-- What is the same
-- ---------------------------------------------------------------------------

/-- The trees agree if their tokens are put at one and the same place. -/
def Program.Same (p q : Program) : Prop :=
  ∀ place, p.relocate (fun _ => place) = q.relocate fun _ => place

def Failure.view (e : Failure) : Option Phase × String := (e.phase?, e.message)

inductive SameVerdict : Except Failure Program → Except Failure Program → Prop
  | accepted {p q} (trees : Program.Same p q) : SameVerdict (.ok p) (.ok q)
  | refused (view : e.view = e'.view) : SameVerdict (.error e) (.error e')

structure SameRun (r r' : RunReport) : Prop where
  output : r.output = r'.output
  trace : r.trace = r'.trace
  failure : r.failure.map Failure.view = r'.failure.map Failure.view

-- ---------------------------------------------------------------------------
-- One phase at a time
-- ---------------------------------------------------------------------------

theorem parse_verdict (h : SameTokens ts us) :
    SameVerdict (parseTokens ts).result (parseTokens us).result := by
  have hsame := parsed_same h
  cases hts : parseTokens ts with
  | ok p rest =>
    cases hus : parseTokens us with
    | ok q rest' =>
      refine .accepted fun place => ?_
      have heq := hsame place
      rw [hts, hus] at heq
      exact (Parsed.ok.inj heq).1
    | fault g rest' => simp [hts, hus, Parsed.relocate] at hsame
    | abort why' => simp [hts, hus, Parsed.relocate] at hsame
  | fault f rest =>
    cases hus : parseTokens us with
    | ok q rest' => simp [hts, hus, Parsed.relocate] at hsame
    | fault g rest' =>
      have heq := hsame default
      rw [hts, hus] at heq
      have hcause := At.cause_eq_of_relocate _ (Parsed.fault.inj heq).1
      exact .refused (congrArg (fun c => (some Phase.parse, ParseCause.message c)) hcause)
    | abort why' => simp [hts, hus, Parsed.relocate] at hsame
  | abort why =>
    cases hus : parseTokens us with
    | ok q rest' => simp [hts, hus, Parsed.relocate] at hsame
    | fault g rest' => simp [hts, hus, Parsed.relocate] at hsame
    | abort why' =>
      have heq := hsame default
      rw [hts, hus] at heq
      cases Parsed.abort.inj heq
      cases why <;> exact .refused rfl

theorem analyze_verdict (h : Program.Same p q) :
    SameVerdict (Interpreter.analyze p) (Interpreter.analyze q) := by
  have hp := Typing.checkProgram_relocate (fun _ => default) p
  rw [h default, Typing.checkProgram_relocate] at hp
  unfold Interpreter.analyze
  cases hcp : Typing.checkProgram p with
  | ok u =>
    cases hcq : Typing.checkProgram q with
    | ok v => exact .accepted h
    | error g => simp [hcp, hcq, Except.mapError] at hp
  | error f =>
    cases hcq : Typing.checkProgram q with
    | ok v => simp [hcp, hcq, Except.mapError] at hp
    | error g =>
      rw [hcp, hcq] at hp
      have hcause := At.cause_eq_of_relocate _ (Except.error.inj hp)
      exact .refused (congrArg (fun c => (some Phase.semantic, TypeCause.message c)) hcause.symm)

theorem view_relocate (move : Position → Position) (ending : Ending α) :
    (ending.relocate move).failure?.map Failure.view = ending.failure?.map Failure.view := by
  cases ending <;> rfl

theorem execute_same (h : Program.Same p q) (hp : p.tok.location.file = file)
    (hq : q.tok.location.file = file) (sink : Sink) (opts : Options) :
    SameRun (Interpreter.execute p sink opts) (Interpreter.execute q sink opts) := by
  -- A place in the file of both, so that moving there keeps what the trace says.
  have hmoved : ∀ r : Program, r.tok.location.file = file →
      Run.program opts.maxCallDepth opts.allowance (r.relocate fun _ => ⟨0, 0, file⟩) { sink } =
        let out := Run.program opts.maxCallDepth opts.allowance r { sink }
        (out.1.relocate fun _ => ⟨0, 0, file⟩, out.2) :=
    fun r hr => Run.program_moves opts.maxCallDepth opts.allowance r hr.symm { sink }
  have heq := hmoved p hp
  rw [h, hmoved q hq] at heq
  obtain ⟨hending, hmachine⟩ := Prod.mk.inj heq
  refine ⟨congrArg Machine.output hmachine.symm, congrArg Machine.events hmachine.symm, ?_⟩
  have hview := congrArg (fun e : Ending Unit => e.failure?.map Failure.view) hending
  simp only [view_relocate] at hview
  exact hview.symm

-- ---------------------------------------------------------------------------
-- The phases in a row
-- ---------------------------------------------------------------------------

namespace Interpreter

theorem parse_eq (h : tokenize opts.file src = .ok ts) :
    parse src opts = ⟨[.lexing opts.file, .parsing ts.length], (parseTokens ts).result⟩ := by
  have hresult : (tokens src opts).result = .ok ts := tokens_ok.mpr h
  simp only [parse, Traced.andThen, hresult]
  rfl

theorem tok_file (h : (parse src opts).result = .ok p) : p.tok.location.file = opts.file := by
  have htok := congrArg (fun q => q.tok.location.file) (relocate_of_parse h)
  exact htok.symm

section

variable (h : tokenize opts.file src = .ok ts) (h' : tokenize opts.file src' = .ok us)
  (hsame : SameTokens ts us)

include h h' hsame

theorem parse_same : (parse src opts).trace = (parse src' opts).trace ∧
    SameVerdict (parse src opts).result (parse src' opts).result := by
  rw [parse_eq h, parse_eq h', hsame.length]
  exact ⟨rfl, parse_verdict hsame⟩

theorem check_same : (check src opts).trace = (check src' opts).trace ∧
    SameVerdict (check src opts).result (check src' opts).result := by
  obtain ⟨htrace, hverdict⟩ := parse_same h h' hsame
  unfold check Traced.andThen
  generalize parse src opts = x at htrace hverdict ⊢
  generalize parse src' opts = y at htrace hverdict ⊢
  obtain ⟨trace, result⟩ := x
  obtain ⟨trace', result'⟩ := y
  cases hverdict with
  | refused view => exact ⟨htrace, .refused view⟩
  | @accepted p q trees =>
    have hdecls : p.decls.length = q.decls.length := by
      have hlen := congrArg (fun r => r.decls.length) (trees default)
      simpa [Program.relocate] using hlen
    refine ⟨?_, analyze_verdict trees⟩
    show trace ++ [.analyzing p.decls.length] = trace' ++ [.analyzing q.decls.length]
    rw [show trace = trace' from htrace, hdecls]

theorem run_same (sink : Sink) : SameRun (run src sink opts) (run src' sink opts) := by
  obtain ⟨htrace, hverdict⟩ := check_same h h' hsame
  have hfile : ∀ {src p}, (check src opts).result = .ok p → p.tok.location.file = opts.file :=
    fun hp => tok_file (check_ok hp)
  have hp := @hfile src
  have hq := @hfile src'
  unfold run
  generalize check src opts = x at htrace hverdict hp ⊢
  generalize check src' opts = y at htrace hverdict hq ⊢
  obtain ⟨trace, result⟩ := x
  obtain ⟨trace', result'⟩ := y
  cases hverdict with
  | refused view => exact ⟨rfl, htrace, congrArg some view⟩
  | @accepted p q trees =>
    obtain ⟨houtput, hmore, hfailure⟩ := execute_same trees (hp rfl) (hq rfl) sink opts
    refine ⟨houtput, ?_, hfailure⟩
    show trace ++ (execute p sink opts).trace = trace' ++ (execute q sink opts).trace
    rw [show trace = trace' from htrace, hmore]

end

/-- What a parsed program renders to has the tokens of its source. -/
theorem render_tokens (h : (parse src opts).result = .ok p) :
    ∃ ts us, tokenize opts.file src = .ok ts ∧
      tokenize opts.file ⟨Text.bytesOf p.render, none⟩ = .ok us ∧ SameTokens us ts := by
  obtain ⟨ts, rest, hts, hparse⟩ := parse_ok h
  obtain ⟨us, derived, hus⟩ :=
    LineReader.tokenize_unlines (program_reads p (parse_wellFormed h)) opts.file
  refine ⟨ts, us, hts, hus, ?_⟩
  have htexts : us.map Token.value = ts.map Token.value :=
    (program_texts derived).trans (program_texts (Parser.parseProgram_ok hparse).2).symm
  -- The text of a token that was cut from a line gives its kind.
  have hkind : ∀ t ∈ us, ∀ t' ∈ ts, t.value = t'.value → t.kind = t'.kind := by
    intro t ht t' ht' hvalue
    have hlex := Lexer.lexical_of_shape (tokenize_genuine hus t ht).shape
    have hlex' := Lexer.lexical_of_shape (tokenize_genuine hts t' ht').shape
    rw [← hvalue] at hlex'
    exact Option.some.inj (hlex.kind_unique hlex')
  clear derived hparse hus hts h
  induction us generalizing ts with
  | nil =>
    cases ts with
    | nil => rfl
    | cons t' ts => cases htexts
  | cons t us ih =>
    cases ts with
    | nil => cases htexts
    | cons t' ts =>
      simp only [List.map_cons, List.cons.injEq] at htexts
      simp only [List.forall_mem_cons] at hkind
      have htail := ih ts htexts.2 fun u hu u' hu' => (hkind.2 u hu).2 u' hu'
      rw [SameTokens, List.map_cons, List.map_cons, hkind.1.1 htexts.1, htexts.1, htail]

/-- Two sources whose tokens agree in kind and text are parsed and checked to the same trees or
refused with the same message by the same phase, and they run alike: they write the same output,
leave the same trace and stop in the same phase with the same message. So does the text that a
parsed program renders to. -/
theorem layout_has_no_meaning (src src' : Source) (opts : Options) (sink : Sink)
    (ts us : List Token) (h : tokenize opts.file src = .ok ts)
    (h' : tokenize opts.file src' = .ok us) (hsame : SameTokens ts us) :
    SameVerdict (parse src opts).result (parse src' opts).result ∧
      (∀ p q, (parse src opts).result = .ok p → (parse src' opts).result = .ok q →
        SameVerdict (analyze p) (analyze q)) ∧
      SameVerdict (check src opts).result (check src' opts).result ∧
      SameRun (run src sink opts) (run src' sink opts) ∧
      ∀ p, (parse src opts).result = .ok p →
        SameRun (run ⟨Text.bytesOf p.render, none⟩ sink opts) (run src sink opts) := by
  obtain ⟨-, hverdict⟩ := parse_same h h' hsame
  refine ⟨hverdict, ?_, (check_same h h' hsame).2, run_same h h' hsame sink, ?_⟩
  · intro p q hp hq
    rw [hp, hq] at hverdict
    cases hverdict with
    | accepted trees => exact analyze_verdict trees
  · intro p hp
    obtain ⟨ts', us', hts', hus', hrender⟩ := render_tokens hp
    exact run_same hus' hts' hrender sink

/-- A program on one line and on two. It writes a text and then divides by zero in a call. -/
def oneLine : Source := ⟨Text.bytesOf
  "program x:Integer; f(n:Integer):Integer is begin return(1/n);end;begin print\"s\"; x:=f(x);end;",
  none⟩

def twoLines : Source := ⟨Text.bytesOf
  "program x:Integer;f(n:Integer):Integer is\nbegin return(1/n);end;begin\tprint\"s\";x:=f(x);end;",
  none⟩

theorem layout_has_no_meaning_twoLines :
    ∃ ts us, tokenize "" oneLine = .ok ts ∧ tokenize "" twoLines = .ok us ∧ SameTokens ts us ∧
      ∃ r, run oneLine .endless { allowance := 2 } = r ∧ r.output = "s" ∧
        r.failure.map Failure.view = some (some .execution, "Division by zero") ∧
        SameRun r (run twoLines .endless { allowance := 2 }) := by
  have htokens : (match tokenize "" oneLine, tokenize "" twoLines with
      | .ok ts, .ok us => decide (SameTokens ts us)
      | _, _ => false) = true := by
    decide +kernel
  have hrun : (run oneLine .endless { allowance := 2 }).output = "s" ∧
      (run oneLine .endless { allowance := 2 }).failure.map Failure.view =
        some (some .execution, "Division by zero") := by
    decide +kernel
  split at htokens
  next ts us hts hus =>
    refine ⟨ts, us, hts, hus, of_decide_eq_true htokens, _, rfl, hrun.1, hrun.2, ?_⟩
    exact (layout_has_no_meaning _ _ { allowance := 2 } .endless _ _ hts hus
      (of_decide_eq_true htokens)).2.2.2.1
  · cases htokens

end Interpreter

end SplatLang
