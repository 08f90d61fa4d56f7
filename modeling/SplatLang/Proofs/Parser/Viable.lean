import SplatLang.Proofs.Parser.Progress
import SplatLang.Proofs.Parser.Relocate

/-!
# Faults point at the first offending token

Tokens are viable if they begin a list that is accepted. A fault at the end of the tokens is
reported only for viable tokens. Any other fault stands at a token with viable tokens before it
and, if it is not for a missing declaration, makes them no longer viable; where a declaration is
missing, the token behind it does.

So the parser rejects no list earlier than it must. It follows that an accepted list begins no
other one: short of its last token every list stops at its end, or in a declaration that only its
second token could tell.
-/

namespace SplatLang

open SplatLang.Parser SplatLang.Grammar

-- ---------------------------------------------------------------------------
-- Viable tokens
-- ---------------------------------------------------------------------------

def Accepts (ts : List Token) : Prop := ∃ p rest, parseTokens ts = .ok p rest

/-- The tokens begin an accepted list, places apart. -/
def Viable (ts : List Token) : Prop := ∃ us more, SameTokens us ts ∧ Accepts (us ++ more)

theorem SameTokens.append (h : SameTokens ts us) (more : List Token) :
    SameTokens (ts ++ more) (us ++ more) := by
  rw [SameTokens, List.map_append, List.map_append, h]

theorem Accepts.of_same (h : SameTokens ts us) (hts : Accepts ts) : Accepts us := by
  obtain ⟨p, rest, hp⟩ := hts
  have hsame := parsed_same h default
  rw [hp] at hsame
  cases hus : parseTokens us with
  | ok q rest' => exact ⟨q, rest', hus⟩
  | fault f rest' => simp [hus, Parsed.relocate] at hsame
  | abort why => simp [hus, Parsed.relocate] at hsame

theorem viable_iff : Viable ts ↔ ∃ more, Accepts (ts ++ more) := by
  constructor
  · rintro ⟨us, more, hsame, haccepts⟩
    exact ⟨more, haccepts.of_same (hsame.append more)⟩
  · rintro ⟨more, haccepts⟩
    exact ⟨ts, more, rfl, haccepts⟩

theorem viable_of_append (h : Viable (ts ++ us)) : Viable ts := by
  obtain ⟨more, haccepts⟩ := viable_iff.mp h
  rw [List.append_assoc] at haccepts
  exact viable_iff.mpr ⟨us ++ more, haccepts⟩

theorem viable_of_completes (h : ∀ t ∈ us, t.Genuine)
    (hus : Completes (fun us (p : Program) => IsProgram us p.bare) us) : Viable us := by
  obtain ⟨vs, p, hvs, program⟩ := hus
  have hquote : ∀ t ∈ us ++ vs, KeepsQuote t := fun t ht =>
    keepsQuote_of_genuine ((List.mem_append.mp ht).elim (h t) (hvs t))
  obtain ⟨q, hq, -⟩ := parseProgram_complete program hquote (Nat.lt_succ_self _)
  exact viable_iff.mpr ⟨vs, q, [], hq⟩

/-- A list that is accepted under its own allowance is accepted under any larger one. -/
theorem parseProgram_mono (h : parseTokens ts = .ok p rest) (hn : ts.length < n) (eof : Position) :
    parseProgram n eof ts = .ok p rest := by
  obtain ⟨us, rfl, -, htakes⟩ := (parseProgram_guided hn).took h
  exact htakes eof rest rfl

theorem not_viable_of_dead (h : Dead (parseProgram n) us) : ¬ Viable us := by
  intro hviable
  obtain ⟨more, p, rest, hok⟩ := viable_iff.mp hviable
  obtain ⟨f, rest', hfault⟩ := h default more
  -- The two verdicts are for two allowances, and both hold for the larger one.
  have hmax := (parseProgram_guided (Nat.le_max_left n ((us ++ more).length + 1))).keeps hfault
  rw [parseProgram_mono hok (Nat.le_max_right _ _)] at hmax
  cases hmax

-- ---------------------------------------------------------------------------
-- Offending tokens
-- ---------------------------------------------------------------------------

inductive PastEnd : List Token → Position → Prop
  | empty : PastEnd [] ⟨1, 1, ""⟩
  | last : PastEnd (ts ++ [t]) { t.location with column := t.location.column + t.value.length }

/-- The fault stands where the tokens stop being viable. -/
structure Pinpoints (ts : List Token) (f : ParseFault) : Prop where
  ended : f.cause.message = "Unexpectedly reached the end of file." →
    Viable ts ∧ PastEnd ts f.location
  offended : f.cause.message ≠ "Unexpectedly reached the end of file." →
    ∃ us t more, ts = us ++ t :: more ∧ f.location = t.location ∧ Viable us ∧
      ((∀ s, f.cause.message ≠ "Declaration expected, " ++ s) → ¬ Viable (us ++ [t])) ∧
      (∀ s, f.cause.message = "Declaration expected, got " ++ s →
        more = [] ∨ ∃ u more', more = u :: more' ∧ ¬ Viable (us ++ [t, u]))

theorem endPosition_past (ts : List Token) : PastEnd ts (endPosition ts) := by
  rcases List.eq_nil_or_concat ts with rfl | ⟨us, t, rfl⟩
  · exact .empty
  · rw [List.concat_eq_append, endPosition, List.getLast?_concat]
    exact .last

theorem opens_of_append {a s b : String} (h : a ++ s = b) :
    a.toList.isPrefixOf b.toList = true := by
  rw [← h, String.toList_append, List.isPrefixOf_iff_prefix]
  exact List.prefix_append _ _

/-- No other fault reads like that for the end of the tokens. -/
theorem message_endOfFile {cause : ParseCause}
    (h : cause.message = "Unexpectedly reached the end of file.") : cause = .endOfFile := by
  cases cause with
  | endOfFile => rfl
  | notAStatement => exact absurd h (by decide)
  | _ =>
    unfold ParseCause.message at h
    simp only [String.append_assoc] at h
    exact absurd (opens_of_append h) (by decide)

theorem fault_pinpoints (hgenuine : ∀ t ∈ ts, t.Genuine) (h : parseTokens ts = .fault f rest) :
    Pinpoints ts f := by
  have hviable : ∀ {us vs}, ts = us ++ vs →
      Completes (fun us (p : Program) => IsProgram us p.bare) us → Viable us := by
    rintro us vs rfl hus
    exact viable_of_completes (List.forall_mem_append.mp hgenuine).1 hus
  cases (parseProgram_guided (Nat.le_refl _)).blames h with
  | atEnd viable =>
    refine ⟨fun _ => ⟨hviable (List.append_nil ts).symm viable, endPosition_past ts⟩, ?_⟩
    exact fun hne => absurd rfl hne
  | @token us t more cause plain viable dead =>
    refine ⟨fun hend => ?_, fun _ => ⟨us, t, more, rfl, rfl, hviable rfl viable, ?_, ?_⟩⟩
    · have hcause : cause = .endOfFile := message_endOfFile hend
      rw [hcause] at plain
      cases plain
    · exact fun _ => not_viable_of_dead dead
    · intro s _
      cases more with
      | nil => exact .inl rfl
      | cons u more =>
        have hlonger : ¬ Viable (us ++ [t] ++ [u]) := fun hboth =>
          not_viable_of_dead dead (viable_of_append hboth)
        exact .inr ⟨u, more, rfl, by simpa using hlonger⟩
  | @decl us t more viable place dead =>
    refine ⟨fun hend => ?_, fun _ => ⟨us, t, more, rfl, rfl, hviable rfl viable, ?_, ?_⟩⟩
    · cases message_endOfFile hend
    · exact fun hother => absurd rfl (hother ("got '" ++ t.value ++ "'."))
    · intro s _
      cases more with
      | nil => exact .inl rfl
      | cons u more => exact .inr ⟨u, more, rfl, not_viable_of_dead (dead u more rfl)⟩

-- ---------------------------------------------------------------------------
-- Lists that begin accepted ones
-- ---------------------------------------------------------------------------

/-- The first list ends with `t`, which begins a declaration of the program that the two lists are
together. -/
inductive StopsInDecl : List Token → Token → List Token → Prop
  | mk (program : parseTokens (w :: us ++ [t] ++ (xs ++ ys)) = .ok q rest)
      (decls : q.decls = ds ++ d :: ds')
      (before : Repeated (fun us d => IsDecl us d.bare) us ds) (decl : IsDecl (t :: xs) d.bare) :
      StopsInDecl (w :: us ++ [t]) t (xs ++ ys)

theorem part_rejected (h : Accepts (ts ++ more)) (hmore : more ≠ []) :
    ∃ f rest, parseTokens ts = .fault f rest ∧ (f.cause = .endOfFile ∨
      ∃ t, f.cause = .notADeclaration t.value ∧ StopsInDecl ts t more) := by
  obtain ⟨q, rest, hok⟩ := h
  have hn : ts.length + 1 ≤ (ts ++ more).length + 1 := by simp
  have hguided := parseProgram_guided hn
  cases hts : parseTokens ts with
  | ok p rest' =>
    obtain ⟨u, more, rfl⟩ := List.exists_cons_of_ne_nil hmore
    obtain ⟨f, rest'', hfault⟩ := parseProgram_closed hn hts (endPosition (ts ++ u :: more)) u more
    cases hok.symm.trans hfault
  | abort why =>
    cases why with
    | emptyLabel => cases hok.symm.trans ((hguided.stops hts).2 _ more)
    | exhausted => exact absurd ((parseProgram_lasts _).lasts hts) (Nat.not_succ_le_self _)
  | fault f rest' =>
    refine ⟨f, rest', rfl, ?_⟩
    cases hguided.blames hts with
    | atEnd _ => exact .inl rfl
    | @token us t mid cause plain viable dead =>
      have hviable : Viable (us ++ [t]) := viable_iff.mpr ⟨mid ++ more, q, rest, by simpa using hok⟩
      exact absurd hviable (not_viable_of_dead dead)
    | @decl us t mid viable place dead =>
      cases mid with
      | cons u mid =>
        have hviable : Viable (us ++ [t, u]) :=
          viable_iff.mpr ⟨mid ++ more, q, rest, by simpa using hok⟩
        exact absurd hviable (not_viable_of_dead (dead u mid rfl))
      | nil =>
        obtain ⟨w, vs, ds, rfl, decls, hrun⟩ := place
        have hprogram : parseProgram ((w :: vs ++ [t] ++ more).length + 1) default
            (w :: vs ++ t :: more) = .ok q rest := by
          rw [List.append_cons (w :: vs) t more]
          exact parseProgram_mono hok (Nat.lt_succ_self _) default
        obtain ⟨xs, ys, d, ds', rfl, decl, hds⟩ := hrun hprogram
        exact .inr ⟨t, rfl, .mk hok hds decls decl⟩

/-- A list of tokens of a source that is not accepted is at fault at its first offending token.
Hence a part of an accepted list is rejected, for its end or for a declaration begun with its last
token, and no accepted list begins another. -/
theorem faults_pinpoint_offender :
    (∀ file src ts, tokenize file src = .ok ts → ¬ Accepts ts →
      ∃ f rest, parseTokens ts = .fault f rest ∧ Pinpoints ts f) ∧
    (∀ ts more, Accepts (ts ++ more) → more ≠ [] → ∃ f rest, parseTokens ts = .fault f rest ∧
      (f.cause.message = "Unexpectedly reached the end of file." ∨
        ∃ t, f.cause.message = "Declaration expected, got '" ++ t.value ++ "'." ∧
          StopsInDecl ts t more)) ∧
    ∀ ts more, Accepts ts → Accepts (ts ++ more) → more = [] := by
  refine ⟨fun file src ts htokens hrejected => ?_, fun ts more haccepts hmore => ?_,
    fun ts more hts haccepts => ?_⟩
  · have hgenuine := tokenize_genuine htokens
    rcases parseTokens_verdict fun t ht => (hgenuine t ht).value_ne with hok | ⟨f, rest, hfault⟩
    · exact absurd hok hrejected
    · exact ⟨f, rest, hfault, fault_pinpoints hgenuine hfault⟩
  · obtain ⟨f, rest, hfault, hcause | ⟨t, hcause, hstops⟩⟩ := part_rejected haccepts hmore
    · exact ⟨f, rest, hfault, .inl (congrArg ParseCause.message hcause)⟩
    · exact ⟨f, rest, hfault, .inr ⟨t, congrArg ParseCause.message hcause, hstops⟩⟩
  · cases more with
    | nil => rfl
    | cons u more =>
      obtain ⟨p, rest, hok⟩ := hts
      obtain ⟨f, rest', hfault, -⟩ := part_rejected haccepts (List.cons_ne_nil u more)
      cases hok.symm.trans hfault

def strayName : Source := ⟨Text.bytesOf "program x : int ; f\nbegin end ;\n", none⟩

def begun : List Token :=
  [⟨.keyword, "program", ⟨1, 1, ""⟩⟩, ⟨.ident, "x", ⟨1, 9, ""⟩⟩]

def typed : List Token :=
  [⟨.delimiter, ":", ⟨1, 11, ""⟩⟩, ⟨.ident, "int", ⟨1, 13, ""⟩⟩, ⟨.delimiter, ";", ⟨1, 17, ""⟩⟩]

def stray : Token := ⟨.ident, "f", ⟨1, 19, ""⟩⟩

def emptyBody : List Token :=
  [⟨.keyword, "begin", ⟨2, 1, ""⟩⟩, ⟨.keyword, "end", ⟨2, 7, ""⟩⟩, ⟨.delimiter, ";", ⟨2, 11, ""⟩⟩]

theorem strayName_tokens :
    tokenize "" strayName = .ok (begun ++ typed ++ stray :: emptyBody) := by cbv

theorem faults_pinpoint_offender_strayName :
    tokenize "" strayName = .ok (begun ++ typed ++ stray :: emptyBody) ∧
    ¬ Accepts (begun ++ typed ++ stray :: emptyBody) ∧
    (∃ rest, parseTokens (begun ++ typed ++ stray :: emptyBody) =
        .fault ⟨.notADeclaration "f", ⟨1, 19, ""⟩⟩ rest ∧
      Pinpoints (begun ++ typed ++ stray :: emptyBody) ⟨.notADeclaration "f", ⟨1, 19, ""⟩⟩) ∧
    Accepts (begun ++ (typed ++ emptyBody)) ∧
    (∃ t, StopsInDecl begun t (typed ++ emptyBody)) ∧
    ¬ Accepts begun := by
  have hfault : parseTokens (begun ++ typed ++ stray :: emptyBody) =
      .fault ⟨.notADeclaration "f", ⟨1, 19, ""⟩⟩ (stray :: emptyBody) := by rfl
  have hrejected : ¬ Accepts (begun ++ typed ++ stray :: emptyBody) := by
    rintro ⟨p, rest, hok⟩
    cases hfault.symm.trans hok
  have haccepts : Accepts (begun ++ (typed ++ emptyBody)) := ⟨_, _, rfl⟩
  have hbegun : parseTokens begun = .fault ⟨.notADeclaration "x", ⟨1, 9, ""⟩⟩ (begun.drop 1) := by
    rfl
  obtain ⟨hpinpoints, hpart, hfree⟩ := faults_pinpoint_offender
  obtain ⟨f, rest, hf, hwhere⟩ := hpinpoints "" strayName _ strayName_tokens hrejected
  cases hfault.symm.trans hf
  obtain ⟨g, rest', hg, hend | ⟨t, -, hstops⟩⟩ := hpart begun _ haccepts (by decide)
  · cases hbegun.symm.trans hg
    exact absurd hend (by decide)
  · have hlonger : ¬ Accepts begun := fun h => absurd (hfree begun _ h haccepts) (by decide)
    exact ⟨strayName_tokens, hrejected, ⟨_, hf, hwhere⟩, haccepts, ⟨t, hstops⟩, hlonger⟩

end SplatLang
