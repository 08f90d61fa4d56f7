import SplatLang.Interpreter
import SplatLang.Proofs.Lexer.Cutting
import SplatLang.Proofs.Parser.Relocate
import SplatLang.Proofs.Run.Relocate
import SplatLang.Proofs.Run.Sinks
import SplatLang.Proofs.Typing.Relocate

/-!
# Places name their file

The lexer puts the name of the source into every place it makes. Moving everything into that file
changes none of its tokens; hence nothing changes in what later phases make of them, and so their
faults lie in the file as well. No phase is opened for this: that places are only passed on is
said once, by the laws of moving.

One place is not taken from a token. A source without tokens is refused at the start of a text
without a name, whatever the name of the source.
-/

namespace SplatLang

variable {file : String} {ts : List Token}

-- ---------------------------------------------------------------------------
-- The lexer
-- ---------------------------------------------------------------------------

def LexedIn (file : String) : Except LexFault (List Token) → Prop
  | .ok ts => ∀ t ∈ ts, t.location.file = file
  | .error f => f.location.file = file

namespace Lexer

theorem tokensOn_file : ∀ t ∈ tokensOn file line offset fs, t.location.file = file := by
  induction fs generalizing offset with
  | nil => simp [tokensOn]
  | cons f fs ih =>
    rw [tokensOn, List.forall_mem_append]
    refine ⟨?_, ih⟩
    cases f.kind with
    | none => simp
    | some k => simp

theorem lexLine_file (file : String) (line offset : Nat) (cs : List Char) :
    LexedIn file (lexLine file line offset cs) := by
  cases h : lexLine file line offset cs with
  | ok ts =>
    obtain ⟨fs, -, rfl⟩ := lexLine_iff.mp h
    exact tokensOn_file
  | error f =>
    obtain ⟨front, c, rest, fs, -, -, hloc⟩ := lexLine_error h
    simp [LexedIn, hloc]

end Lexer

namespace LineReader

theorem lexFrom_file (n : Nat) (ls : List (List Char)) : LexedIn file (lexFrom file n ls) := by
  induction ls generalizing n with
  | nil => simp [lexFrom, LexedIn]
  | cons l ls ih =>
    have hhere := Lexer.lexLine_file file n 0 l
    have hmore := ih (n + 1)
    rw [lexFrom]
    cases hl : Lexer.lexLine file n 0 l with
    | error f =>
      rw [hl] at hhere
      exact hhere
    | ok here =>
      cases hls : lexFrom file (n + 1) ls with
      | error f =>
        rw [hls] at hmore
        exact hmore
      | ok more =>
        rw [hl] at hhere
        rw [hls] at hmore
        exact List.forall_mem_append.mpr ⟨hhere, hmore⟩

theorem tokens_file (r : LineReader) : LexedIn r.file r.tokens.1 := by
  have hlines : LexedIn r.file (lexLines r.file r.count r.lines).1 := by
    rw [lexLines_fst]
    exact lexFrom_file _ _
  unfold tokens
  split
  next hrun =>
    rw [hrun] at hlines
    exact hlines
  next here n left hrun =>
    rw [hrun] at hlines
    split
    · rfl
    split
    · exact hlines
    · have htail : LexedIn r.file (lexBytes r.file (n + 1) r.tail) :=
        Lexer.lexLine_file r.file (n + 1) 0 (decodeLine r.tail)
      cases h : lexBytes r.file (n + 1) r.tail with
      | error f =>
        rw [h] at htail
        exact htail
      | ok more =>
        rw [h] at htail
        exact List.forall_mem_append.mpr ⟨hlines, htail⟩

end LineReader

theorem tokenize_file (file : String) (src : Source) : LexedIn file (tokenize file src) :=
  LineReader.tokens_file (LineReader.ofSource file src)

theorem file_of_tokenize (h : tokenize file src = .ok ts) : ∀ t ∈ ts, t.location.file = file := by
  have hfile := tokenize_file file src
  rw [h] at hfile
  exact hfile

-- ---------------------------------------------------------------------------
-- Moving into a file
-- ---------------------------------------------------------------------------

def Position.within (file : String) (p : Position) : Position := { p with file }

theorem Position.within_eq_self {p : Position} : p.within file = p ↔ p.file = file := by
  cases p
  simp [Position.within, eq_comm]

theorem map_within (h : ∀ t ∈ ts, t.location.file = file) :
    ts.map (Token.relocate (Position.within file)) = ts := by
  refine (List.map_congr_left fun t ht => ?_).trans (List.map_id ts)
  simp [Token.relocate, Position.within_eq_self.mpr (h t ht)]

theorem endPosition_file (h : ∀ t ∈ ts, t.location.file = file) (hne : ts ≠ []) :
    (Parser.endPosition ts).file = file := by
  rw [Parser.endPosition, List.getLast?_eq_some_getLast hne]
  exact h _ (List.getLast_mem hne)

/-- What the parser makes of tokens in a file stays in the file. -/
theorem parseTokens_within (h : ∀ t ∈ ts, t.location.file = file) (hne : ts ≠ []) :
    (parseTokens ts).relocate (Position.within file) (Program.relocate (Position.within file)) =
      parseTokens ts := by
  rw [← parseTokens_relocate, map_within h]
  rw [map_within h, Position.within_eq_self.mpr (endPosition_file h hne)]

theorem parseFault_file (h : ∀ t ∈ ts, t.location.file = file) (hne : ts ≠ [])
    (hparse : parseTokens ts = .fault f rest) : f.location.file = file := by
  have hfix := parseTokens_within h hne
  simp only [hparse, Parsed.relocate, Parsed.fault.injEq] at hfix
  exact Position.within_eq_self.mp (congrArg At.location hfix.1)

theorem program_within (h : ∀ t ∈ ts, t.location.file = file)
    (hparse : parseTokens ts = .ok p rest) : p.relocate (Position.within file) = p := by
  have hne : ts ≠ [] := by
    rintro rfl
    cases hparse
  have hfix := parseTokens_within h hne
  simp only [hparse, Parsed.relocate, Parsed.ok.injEq] at hfix
  exact hfix.1

theorem typeFault_file (hp : p.relocate (Position.within file) = p)
    (h : Typing.checkProgram p = .error f) : f.location.file = file := by
  have hfix := Typing.checkProgram_relocate (Position.within file) p
  rw [hp, h] at hfix
  exact Position.within_eq_self.mp (congrArg At.location (Except.error.inj hfix)).symm

theorem runFault_file (hp : p.relocate (Position.within file) = p)
    (h : Run.program limit n p m = (.fault f, m')) : f.location.file = file := by
  have hfile : ((p.tok.location).within file).file = p.tok.location.file := by
    have htok := congrArg (fun q => q.tok.location.file) hp
    exact htok
  have hfix := Run.program_moves limit n p hfile m
  rw [hp, h] at hfix
  simp only [Ending.relocate, Prod.mk.injEq, and_true, Ending.fault.injEq] at hfix
  exact Position.within_eq_self.mp (congrArg At.location hfix).symm

-- ---------------------------------------------------------------------------
-- The phases in a row
-- ---------------------------------------------------------------------------

theorem Traced.andThen_error {x : Traced (Except Failure α)}
    {next : α → Traced (Except Failure β)} :
    (x.andThen next).result = .error e ↔
      x.result = .error e ∨ ∃ a, x.result = .ok a ∧ (next a).result = .error e := by
  unfold Traced.andThen
  cases x.result <;> simp

theorem Traced.andThen_ok {x : Traced (Except Failure α)}
    {next : α → Traced (Except Failure β)} :
    (x.andThen next).result = .ok b ↔ ∃ a, x.result = .ok a ∧ (next a).result = .ok b := by
  unfold Traced.andThen
  cases x.result <;> simp

namespace Interpreter

theorem tokens_ok : (tokens src opts).result = .ok ts ↔ tokenize opts.file src = .ok ts := by
  unfold tokens
  cases tokenize opts.file src <;> simp [Except.mapError]

theorem tokens_error :
    (tokens src opts).result = .error e ↔
      ∃ f, tokenize opts.file src = .error f ∧ e = f.report.raise := by
  unfold tokens
  cases tokenize opts.file src <;> simp [Except.mapError, eq_comm]

theorem parse_ok (h : (parse src opts).result = .ok p) :
    ∃ ts rest, tokenize opts.file src = .ok ts ∧ parseTokens ts = .ok p rest := by
  obtain ⟨ts, hts, hparse⟩ := Traced.andThen_ok.mp h
  refine ⟨ts, ?_⟩
  cases hresult : parseTokens ts with
  | ok q rest =>
    simp only [hresult, Parsed.result, Except.ok.injEq] at hparse
    exact ⟨rest, tokens_ok.mp hts, hparse ▸ rfl⟩
  | fault f rest => simp [hresult, Parsed.result] at hparse
  | abort why => cases why <;> simp [hresult, Parsed.result] at hparse

theorem parse_error :
    (parse src opts).result = .error e ↔
      (tokens src opts).result = .error e ∨
        ∃ ts, tokenize opts.file src = .ok ts ∧ (parseTokens ts).result = .error e := by
  simp only [parse, Traced.andThen_error, tokens_ok]

theorem check_ok (h : (check src opts).result = .ok p) : (parse src opts).result = .ok p := by
  obtain ⟨q, hq, hcheck⟩ := Traced.andThen_ok.mp h
  unfold analyze at hcheck
  split at hcheck
  · cases hcheck
    exact hq
  · cases hcheck

theorem check_error :
    (check src opts).result = .error e ↔
      (parse src opts).result = .error e ∨
        ∃ p f, (parse src opts).result = .ok p ∧ Typing.checkProgram p = .error f ∧
          e = f.report.raise := by
  simp only [check, Traced.andThen_error]
  refine or_congr_right (exists_congr fun p => ?_)
  unfold analyze
  cases Typing.checkProgram p <;> simp [eq_comm]

theorem run_failure :
    (run src sink opts).failure = some e ↔
      (check src opts).result = .error e ∨
        ∃ p, (check src opts).result = .ok p ∧ (execute p sink opts).failure = some e := by
  unfold run
  obtain ⟨trace, result⟩ := check src opts
  cases result <;> simp

/-- A run fails by the fault that it comes to, or because it is cut off. A fault is found then only
if the sink has one. -/
theorem execute_failure (h : (execute p sink opts).failure = some e) :
    ∃ ending m, Run.program opts.maxCallDepth opts.allowance p { sink } = (ending, m) ∧
      ((∃ f, ending = .fault f ∧ e = f.report.raise) ∨
        (∀ f, e.fault? = some f → sink.fault? = some f) ∧
          ((∃ reason, ending = .refused reason) ∨ ending = .exhausted)) := by
  obtain ⟨ending, m, hm⟩ :
    ∃ ending m, Run.program opts.maxCallDepth opts.allowance p { sink } = (ending, m) :=
      ⟨_, _, rfl⟩
  refine ⟨ending, m, hm, ?_⟩
  simp only [execute, executeOn, hm] at h
  cases ending with
  | done u => cases h
  | fault f =>
    cases h
    exact .inl ⟨f, rfl, rfl⟩
  | refused reason =>
    cases h
    obtain ⟨room, hsink⟩ := Run.sink_of_refused hm
    refine .inr ⟨fun f hf => ?_, .inl ⟨reason, rfl⟩⟩
    rw [show sink = .limited room reason from hsink]
    exact hf
  | exhausted =>
    cases h
    exact .inr ⟨nofun, .inr rfl⟩

/-- A source is refused with a failure by some phase, by itself or after the phases before it. -/
def Refuses (src : Source) (sink : Sink) (opts : Options) (e : Failure) : Prop :=
  (tokens src opts).result = .error e ∨ (parse src opts).result = .error e ∨
    (check src opts).result = .error e ∨ (run src sink opts).failure = some e

end Interpreter

-- ---------------------------------------------------------------------------
-- Reports
-- ---------------------------------------------------------------------------

def Failure.Within (file : String) (e : Failure) : Prop :=
  ∀ f, e.fault? = some f → f.location.file = file

theorem Failure.within_raise {f : Fault} (h : f.location.file = file) :
    f.raise.Within file := by
  intro g hg
  cases hg
  exact h

/-- What a source without tokens is refused with. -/
def blankFault : Fault := ⟨.parse, "Unexpectedly reached the end of file.", ⟨1, 1, ""⟩⟩

namespace Interpreter

theorem tokens_within (h : (tokens src opts).result = .error e) : e.Within opts.file := by
  obtain ⟨f, hf, rfl⟩ := tokens_error.mp h
  have hfile := tokenize_file opts.file src
  rw [hf] at hfile
  exact Failure.within_raise hfile

theorem parse_within (hne : tokenize opts.file src ≠ .ok [])
    (h : (parse src opts).result = .error e) : e.Within opts.file := by
  rcases parse_error.mp h with h | ⟨ts, hts, hparse⟩
  · exact tokens_within h
  · have hts' : ts ≠ [] := by
      rintro rfl
      exact hne hts
    cases hresult : parseTokens ts with
    | ok q rest => simp [hresult, Parsed.result] at hparse
    | fault f rest =>
      rw [hresult] at hparse
      cases hparse
      exact Failure.within_raise (parseFault_file (file_of_tokenize hts) hts' hresult)
    | abort why =>
      rw [hresult] at hparse
      cases why <;> cases hparse <;> exact fun _ hf => nomatch hf

theorem relocate_of_parse (h : (parse src opts).result = .ok p) :
    p.relocate (Position.within opts.file) = p := by
  obtain ⟨ts, rest, hts, hparse⟩ := parse_ok h
  exact program_within (file_of_tokenize hts) hparse

theorem check_within (hne : tokenize opts.file src ≠ .ok [])
    (h : (check src opts).result = .error e) : e.Within opts.file := by
  rcases check_error.mp h with h | ⟨p, f, hp, hf, rfl⟩
  · exact parse_within hne h
  · exact Failure.within_raise (typeFault_file (relocate_of_parse hp) hf)

theorem run_within (hne : tokenize opts.file src ≠ .ok [])
    (h : (run src sink opts).failure = some e) (hf : e.fault? = some f) :
    f.location.file = opts.file ∨ sink.fault? = some f := by
  rcases run_failure.mp h with h | ⟨p, hp, hrun⟩
  · exact .inl (check_within hne h f hf)
  · obtain ⟨ending, m, hm, ⟨g, rfl, rfl⟩ | ⟨hsink, -⟩⟩ := execute_failure hrun
    · have hfile := runFault_file (relocate_of_parse (check_ok hp)) hm
      exact .inl (Failure.within_raise hfile f hf)
    · exact .inr (hsink f hf)

theorem refuses_blank (hblank : tokenize opts.file src = .ok [])
    (h : Refuses src sink opts e) : e = blankFault.raise := by
  have htokens : (tokens src opts).result = .ok [] := tokens_ok.mpr hblank
  have hparse : (parse src opts).result = .error blankFault.raise :=
    parse_error.mpr (.inr ⟨[], hblank, rfl⟩)
  have hcheck : (check src opts).result = .error blankFault.raise :=
    check_error.mpr (.inl hparse)
  have hrun : (run src sink opts).failure = some blankFault.raise := run_failure.mpr (.inl hcheck)
  rcases h with h | h | h | h
  · rw [htokens] at h
    cases h
  · rw [hparse] at h
    exact (Except.error.inj h).symm
  · rw [hcheck] at h
    exact (Except.error.inj h).symm
  · rw [hrun] at h
    exact (Option.some.inj h).symm

/-- Every fault lies in the file that the source is said to be, whatever the source, how much of it
can be read and which phase finds the fault, unless the source has no tokens. Then the one fault
there is lies at the start of a text without a name. A fault that is an error of the sink is none
of the source. -/
theorem faults_name_file (src : Source) (sink : Sink) (opts : Options) (e : Failure)
    (h : Refuses src sink opts e) :
    (tokenize opts.file src ≠ .ok [] → ∀ f, e.fault? = some f →
      f.location.file = opts.file ∨ sink.fault? = some f) ∧
      (tokenize opts.file src = .ok [] → e = blankFault.raise) := by
  refine ⟨fun hne f hf => ?_, fun hblank => refuses_blank hblank h⟩
  rcases h with h | h | h | h
  · exact .inl (tokens_within h f hf)
  · exact .inl (parse_within hne h f hf)
  · exact .inl (check_within hne h f hf)
  · exact run_within hne h hf

def misplaced : Source := ⟨Text.bytesOf "program end", none⟩

def misplacedOptions : Options := { file := "a.splat" }

def misplacedFault : Fault :=
  ⟨.parse, "Declaration expected, got 'end'.", ⟨1, 9, "a.splat"⟩⟩

theorem faults_name_file_misplaced :
    Refuses misplaced .endless misplacedOptions misplacedFault.raise ∧
      misplacedFault.location.file = misplacedOptions.file := by
  have htokens : tokenize "a.splat" misplaced = .ok
      [⟨.keyword, "program", ⟨1, 1, "a.splat"⟩⟩, ⟨.keyword, "end", ⟨1, 9, "a.splat"⟩⟩] := by cbv
  have hrefuses : Refuses misplaced .endless misplacedOptions misplacedFault.raise :=
    .inr (.inl (parse_error.mpr (.inr ⟨_, htokens, rfl⟩)))
  have hne : tokenize "a.splat" misplaced ≠ .ok [] := by simp [htokens]
  refine ⟨hrefuses, ?_⟩
  rcases (faults_name_file _ _ _ _ hrefuses).1 hne _ rfl with hfile | hsink
  · exact hfile
  · cases hsink

/-- The name of a source without tokens is lost. -/
theorem blank_fault_names_no_file :
    ¬ ∀ src opts e f, Refuses src .endless opts e → e.fault? = some f →
      f.location.file = opts.file := by
  intro h
  have hblank : tokenize "a.splat" ⟨[], none⟩ = .ok [] := rfl
  have hparse : (parse ⟨[], none⟩ { file := "a.splat" }).result = .error blankFault.raise :=
    parse_error.mpr (.inr ⟨[], hblank, rfl⟩)
  have hfile := h ⟨[], none⟩ { file := "a.splat" } _ _ (.inr (.inl hparse)) rfl
  exact absurd hfile (by decide)

end Interpreter

end SplatLang
