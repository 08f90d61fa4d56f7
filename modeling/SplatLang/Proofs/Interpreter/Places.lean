import SplatLang.Proofs.Interpreter.Files
import SplatLang.Proofs.Parser.Nodes
import SplatLang.Proofs.Parser.Viable

/-!
# Faults stand in the source

The lexer stops at a character that it can cut nothing off from. Every later fault stands at a
token, or just past the last one if the tokens end too soon. For the parser that is where it puts
the blame. A checked or running program knows no places but those of its nodes, since it does
nothing else under a move that leaves these alone; and the nodes keep tokens of the source.
-/

namespace SplatLang

open SplatLang.Parser

variable {file : String}

-- ---------------------------------------------------------------------------
-- The lexer
-- ---------------------------------------------------------------------------

namespace Lexer

theorem cut_error (h : cut c cs = .error cause) :
    Text.isBlank c = false ∧ isNameChar c = false := by
  unfold cut at h
  split at h
  · cases h
  next hblank =>
  split at h
  next hquote =>
    subst hquote
    exact ⟨by decide, by decide⟩
  split at h
  · cases h
  next hname => exact ⟨by simpa using hblank, by simpa using hname⟩

end Lexer

namespace LineReader

open Lexer

/-- The place is that of a character that is neither a blank nor a part of a word. -/
inductive Offends (lines : List (List Char)) (file : String) : Position → Prop
  | mk (split : lines = before ++ (front ++ c :: behind) :: after)
      (notBlank : Text.isBlank c = false) (notWord : isNameChar c = false) :
      Offends lines file ⟨before.length + 1, front.length + 1, file⟩

theorem lexFrom_offends (h : lexFrom file 1 ls = .error f) : Offends ls file f.location := by
  obtain ⟨before, line, after, rfl, -, hline⟩ := lexFrom_error h
  obtain ⟨front, c, behind, fs, rfl, -, hloc, hcut⟩ := lexLine_stops hline
  obtain ⟨hblank, hname⟩ := cut_error hcut
  have hplace : f.location = ⟨before.length + 1, front.length + 1, file⟩ := by
    rw [hloc]
    congr 1 <;> omega
  rw [hplace]
  exact .mk rfl hblank hname

theorem Offends.append (h : Offends ls file place) (more : List (List Char)) :
    Offends (ls ++ more) file place := by
  cases h with
  | @mk before front c behind after split notBlank notWord =>
    have hmore : ls ++ more = before ++ (front ++ c :: behind) :: (after ++ more) := by simp [split]
    exact .mk hmore notBlank notWord

end LineReader

open LineReader

/-- A source is read up to a character that cannot stand there, unless reading fails. -/
theorem tokenize_error (h : tokenize file src = .error f) :
    (∃ reason, src.failure = some reason ∧ f.cause = .unreadable reason) ∨
      Offends (sourceLines src.bytes) file f.location := by
  obtain ⟨bytes, failure⟩ := src
  cases failure with
  | none =>
    rw [tokenize_eq] at h
    exact .inr (lexFrom_offends h)
  | some reason =>
    obtain ⟨lines, tail, hsplit⟩ : ∃ lines tail, splitLines bytes = (lines, tail) := ⟨_, _, rfl⟩
    have hfst := lexLines_fst file 0 lines
    rw [tokenize, ofSource, hsplit, tokens] at h
    split at h
    next hlines =>
      -- The fault lies in one of the complete lines.
      rw [hlines] at hfst
      cases h
      rw [sourceLines, splitOn_eq, hsplit, List.map_append]
      exact .inr ((lexFrom_offends hfst.symm).append _)
    next hlines =>
      cases h
      exact .inl ⟨reason, rfl, rfl⟩

-- ---------------------------------------------------------------------------
-- The other phases
-- ---------------------------------------------------------------------------

theorem parseFault_place (h : parseTokens ts = .fault f rest) :
    (∃ t ∈ ts, f.location = t.location) ∨ f.cause = .endOfFile ∧ f.location = endPosition ts := by
  cases (parseProgram_guided (Nat.le_refl _)).blames h with
  | atEnd _ => exact .inr ⟨rfl, rfl⟩
  | token _ _ _ => exact .inl ⟨_, by simp, rfl⟩
  | decl _ _ _ => exact .inl ⟨_, by simp, rfl⟩

theorem typeFault_settled (hp : Settled move p.nodes) (h : Typing.checkProgram p = .error f) :
    move f.location = f.location := by
  have hmoved := Typing.checkProgram_relocate move p
  rw [p.relocate_settled hp, h] at hmoved
  exact (congrArg At.location (Except.error.inj hmoved)).symm

theorem runFault_settled (hp : Settled move p.nodes)
    (h : Run.program limit n p m = (.fault f, m')) : move f.location = f.location := by
  have hroot : move p.tok.location = p.tok.location := hp ⟨p.tok, none⟩ List.mem_cons_self
  have hmoved := Run.program_moves limit n p (congrArg Position.file hroot) m
  rw [p.relocate_settled hp, h] at hmoved
  simp only [Ending.relocate, Prod.mk.injEq, and_true, Ending.fault.injEq] at hmoved
  exact (congrArg At.location hmoved).symm

/-- A place of the list is kept, and any other goes to `other`. -/
def Position.among (places : List Position) (other place : Position) : Position :=
  if place ∈ places then place else other

theorem settled_among (h : Grown ts ns) (other : Position) :
    Settled (Position.among (ts.map Token.location) other) ns := by
  intro n hn
  exact if_pos (List.mem_map.mpr ⟨n.tok, (h n hn).1, rfl⟩)

theorem mem_of_among (hother : other ∈ places) (h : Position.among places other place = place) :
    place ∈ places := by
  unfold Position.among at h
  split at h
  · assumption
  · exact h ▸ hother

-- ---------------------------------------------------------------------------
-- The phases in a row
-- ---------------------------------------------------------------------------

namespace Interpreter

/-- The fault is found by one of the phases after the phases before it have succeeded. -/
inductive Raises (src : Source) (sink : Sink) (opts : Options) : Fault → Prop
  | lex (read : tokenize opts.file src = .error f) : Raises src sink opts f.report
  | parse (read : tokenize opts.file src = .ok ts) (parsed : parseTokens ts = .fault f rest) :
      Raises src sink opts f.report
  | semantic (read : tokenize opts.file src = .ok ts) (parsed : parseTokens ts = .ok p rest)
      (checked : Typing.checkProgram p = .error f) : Raises src sink opts f.report
  | execution (read : tokenize opts.file src = .ok ts) (parsed : parseTokens ts = .ok p rest)
      (ran : Run.program opts.maxCallDepth opts.allowance p { sink } = (.fault f, m)) :
      Raises src sink opts f.report

theorem parse_raises (h : (parse src opts).result = .error e) (hf : e.fault? = some f) :
    Raises src sink opts f := by
  rcases parse_error.mp h with h | ⟨ts, hts, hparse⟩
  · obtain ⟨g, hg, rfl⟩ := tokens_error.mp h
    cases hf
    exact .lex hg
  · cases hresult : parseTokens ts with
    | ok p rest => simp [hresult, Parsed.result] at hparse
    | fault g rest =>
      rw [hresult] at hparse
      cases hparse
      cases hf
      exact .parse hts hresult
    | abort why =>
      rw [hresult] at hparse
      cases why <;> cases hparse <;> cases hf

theorem check_raises (h : (check src opts).result = .error e) (hf : e.fault? = some f) :
    Raises src sink opts f := by
  rcases check_error.mp h with h | ⟨p, g, hp, hg, rfl⟩
  · exact parse_raises h hf
  · obtain ⟨ts, rest, hts, hparse⟩ := parse_ok hp
    cases hf
    exact .semantic hts hparse hg

theorem run_raises (h : (run src sink opts).failure = some e) (hf : e.fault? = some f) :
    Raises src sink opts f ∨ sink.fault? = some f := by
  rcases run_failure.mp h with h | ⟨p, hp, hrun⟩
  · exact .inl (check_raises h hf)
  · obtain ⟨ts, rest, hts, hparse⟩ := parse_ok (check_ok hp)
    obtain ⟨ending, m, hm, ⟨g, rfl, rfl⟩ | ⟨hsink, -⟩⟩ := execute_failure hrun
    · cases hf
      exact .inl (.execution hts hparse hm)
    · exact .inr (hsink f hf)

theorem refuses_raises (h : Refuses src sink opts e) (hf : e.fault? = some f) :
    Raises src sink opts f ∨ sink.fault? = some f := by
  rcases h with h | h | h | h
  · exact .inl (parse_raises (parse_error.mpr (.inl h)) hf)
  · exact .inl (parse_raises h hf)
  · exact .inl (check_raises h hf)
  · exact run_raises h hf

/-- The fault stands at a token or, if the tokens end too soon, just past the last one. -/
inductive StandsAmong (ts : List Token) : Fault → Prop
  | token (mem : t ∈ ts) (place : f.location = t.location) : StandsAmong ts f
  | past (last : ts.getLast? = some t) : StandsAmong ts
      ⟨.parse, "Unexpectedly reached the end of file.",
        { t.location with column := t.location.column + t.value.length }⟩

theorem standsAmong_parse (hne : ts ≠ []) (h : parseTokens ts = .fault f rest) :
    StandsAmong ts f.report := by
  rcases parseFault_place h with ⟨t, ht, hloc⟩ | ⟨hcause, hloc⟩
  · exact .token ht hloc
  · have hlast := List.getLast?_eq_some_getLast hne
    rw [ParseFault.report, hcause, hloc, endPosition, hlast]
    exact .past hlast

theorem standsAmong_settled (hne : ts ≠ []) {f : Fault}
    (h : ∀ other, Position.among (ts.map Token.location) other f.location = f.location) :
    StandsAmong ts f := by
  obtain ⟨t, us, rfl⟩ := List.exists_cons_of_ne_nil hne
  have hplace : f.location ∈ (t :: us).map Token.location :=
    mem_of_among (List.mem_cons_self (a := t.location)) (h t.location)
  obtain ⟨u, hu, hloc⟩ := List.mem_map.mp hplace
  exact .token hu hloc.symm

theorem raises_standsAmong (hts : tokenize opts.file src = .ok ts) (hne : ts ≠ [])
    (h : Raises src sink opts f) : StandsAmong ts f := by
  cases h with
  | lex read => cases hts.symm.trans read
  | parse read parsed =>
    cases hts.symm.trans read
    exact standsAmong_parse hne parsed
  | semantic read parsed checked =>
    cases hts.symm.trans read
    exact standsAmong_settled hne fun other =>
      typeFault_settled (settled_among (parseTokens_grown parsed) other) checked
  | execution read parsed ran =>
    cases hts.symm.trans read
    exact standsAmong_settled hne fun other =>
      runFault_settled (settled_among (parseTokens_grown parsed) other) ran

theorem raises_lex (h : Raises src sink opts f) (hphase : f.phase = .lex) :
    (∃ reason, src.failure = some reason ∧ f.message = (LexCause.unreadable reason).message) ∨
      Offends (sourceLines src.bytes) opts.file f.location := by
  cases h with
  | lex read =>
    rcases tokenize_error read with ⟨reason, hfailure, hcause⟩ | hplace
    · exact .inl ⟨reason, hfailure, congrArg LexCause.message hcause⟩
    · exact .inr hplace
  | parse _ _ => cases hphase
  | semantic _ _ _ => cases hphase
  | execution _ _ _ => cases hphase

/-- Places of faults are places of the source. If it has tokens, the nodes of its tree keep these,
with their texts, and all faults stand among them. The faults of the lexer stand at a character of
the source, unless they are for a source that cannot be read. A fault that is an error of the sink
is none of the source. -/
theorem faults_stand_in_source (src : Source) (sink : Sink) (opts : Options) :
    (∀ ts, tokenize opts.file src = .ok ts → ts ≠ [] →
      (∀ p, (parse src opts).result = .ok p →
        ∀ n ∈ p.nodes, n.tok ∈ ts ∧ ∀ text ∈ n.text, n.tok.value = text) ∧
      ∀ e f, Refuses src sink opts e → e.fault? = some f →
        StandsAmong ts f ∨ sink.fault? = some f) ∧
    ∀ e f, Refuses src sink opts e → e.fault? = some f → f.phase = .lex →
      ((∃ reason, src.failure = some reason ∧ f.message = (LexCause.unreadable reason).message) ∨
        Offends (sourceLines src.bytes) opts.file f.location) ∨ sink.fault? = some f := by
  refine ⟨fun ts hts hne => ⟨fun p hp => ?_, fun e f he hf => ?_⟩, fun e f he hf => ?_⟩
  · obtain ⟨us, rest, hus, hparse⟩ := parse_ok hp
    cases hts.symm.trans hus
    exact parseTokens_grown hparse
  · exact (refuses_raises he hf).imp_left (raises_standsAmong hts hne)
  · exact fun hphase => (refuses_raises he hf).imp_left fun h => raises_lex h hphase

/-- A program that runs into a fault, and a text that the lexer cannot read to its end. -/
def dividing : Source := ⟨Text.bytesOf "program begin\nprint (1 / 0); end;", none⟩

def dividingTokens : List Token :=
  [⟨.keyword, "program", ⟨1, 1, ""⟩⟩, ⟨.keyword, "begin", ⟨1, 9, ""⟩⟩,
   ⟨.keyword, "print", ⟨2, 1, ""⟩⟩, ⟨.delimiter, "(", ⟨2, 7, ""⟩⟩, ⟨.int, "1", ⟨2, 8, ""⟩⟩,
   ⟨.operator, "/", ⟨2, 10, ""⟩⟩, ⟨.int, "0", ⟨2, 12, ""⟩⟩, ⟨.delimiter, ")", ⟨2, 13, ""⟩⟩,
   ⟨.delimiter, ";", ⟨2, 14, ""⟩⟩, ⟨.keyword, "end", ⟨2, 16, ""⟩⟩, ⟨.delimiter, ";", ⟨2, 19, ""⟩⟩]

def divisionFault : Fault := ⟨.execution, "Division by zero", ⟨2, 10, ""⟩⟩

def unknownSign : Source := ⟨Text.bytesOf "é é\n x ?", none⟩

def unknownSignFault : Fault := ⟨.lex, "Invalid character: ?", ⟨2, 4, ""⟩⟩

theorem faults_stand_in_source_dividing :
    tokenize "" dividing = .ok dividingTokens ∧
      Refuses dividing .endless {} divisionFault.raise ∧ StandsAmong dividingTokens divisionFault ∧
      Refuses unknownSign .endless {} unknownSignFault.raise ∧
      Offends (sourceLines unknownSign.bytes) "" ⟨2, 4, ""⟩ := by
  have htokens : tokenize "" dividing = .ok dividingTokens := by decide +kernel
  have hrun : Refuses dividing .endless {} divisionFault.raise :=
    .inr (.inr (.inr (by decide +kernel)))
  have hlex : tokenize "" unknownSign = .error ⟨.invalidCharacter '?', ⟨2, 4, ""⟩⟩ := by
    decide +kernel
  have hsign : Refuses unknownSign .endless {} unknownSignFault.raise :=
    .inl (tokens_error.mpr ⟨_, hlex, rfl⟩)
  obtain ⟨hstand, -⟩ := faults_stand_in_source dividing .endless {}
  obtain ⟨-, hoffends⟩ := faults_stand_in_source unknownSign .endless {}
  refine ⟨htokens, hrun, ?_, hsign, ?_⟩
  · rcases (hstand _ htokens (by decide)).2 _ _ hrun rfl with hplace | hsink
    · exact hplace
    · cases hsink
  · rcases hoffends _ _ hsign rfl rfl with (⟨reason, hfailure, -⟩ | hplace) | hsink
    · cases hfailure
    · exact hplace
    · cases hsink

end Interpreter

end SplatLang
