import SplatLang.Program.Render
import SplatLang.Proofs.Lexer.Pieces

/-!
# Reading texts piece by piece

A text `Reads` as some tokens if the lexer takes it for them whatever stands before and behind
it. What stands behind is limited to texts that begin `Apart`, so that they do not go on with the
last token. The laws put texts together: with a blank between them, or directly where the second
one begins apart.
-/

namespace SplatLang

namespace Lexer

open Text

-- ---------------------------------------------------------------------------
-- Single tokens
-- ---------------------------------------------------------------------------

/-- A text that does not go on with the token before it. -/
def Apart (rest : List Char) : Prop := ∀ c ∈ rest.head?, isNameChar c = false ∧ c ≠ '='

theorem apart_nil : Apart [] := by simp [Apart]

theorem apart_cons (h : isNameChar c = false) (h' : c ≠ '=') : Apart (c :: cs) := by
  simp [Apart, h, h']

theorem Apart.bounded (h : Apart rest) : Bounded text rest :=
  ⟨fun _ d hd => (h d hd).1, fun _ he => (h '=' he).2 rfl⟩

-- ---------------------------------------------------------------------------
-- Texts
-- ---------------------------------------------------------------------------

/-- The text is read as tokens of which `P` holds, if what comes behind is fit to follow. It has
no line break, so it is part of a single line. -/
structure Reads (cs : List Char) (follow : List Char → Prop) (P : List Token → Prop) : Prop where
  clean : ∀ c ∈ cs, c ≠ '\n' ∧ c ≠ '\r'
  run : ∀ file line offset rest more, follow rest →
    lexLine file line (offset + cs.length) rest = .ok more →
    ∃ ts, P ts ∧ lexLine file line offset (cs ++ rest) = .ok (ts ++ more)

def Seq (P Q : List Token → Prop) (ts : List Token) : Prop := ∃ us vs, ts = us ++ vs ∧ P us ∧ Q vs

def Single (v : String) (ts : List Token) : Prop := ∃ t, ts = [t] ∧ t.value = v

theorem Reads.mono (h : Reads cs f P) (hPQ : ∀ ts, P ts → Q ts) : Reads cs f Q := by
  refine ⟨h.clean, fun file line offset rest more hrest hmore => ?_⟩
  obtain ⟨ts, hts, hrun⟩ := h.run file line offset rest more hrest hmore
  exact ⟨ts, hPQ ts hts, hrun⟩

theorem Reads.append (h : Reads cs f P) (h' : Reads ds g Q) (hg : ∀ rest, g rest → f (ds ++ rest)) :
    Reads (cs ++ ds) g (Seq P Q) := by
  refine ⟨List.forall_mem_append.mpr ⟨h.clean, h'.clean⟩, ?_⟩
  intro file line offset rest more hrest hmore
  rw [List.length_append, ← Nat.add_assoc] at hmore
  obtain ⟨vs, hvs, hrun'⟩ := h'.run file line _ rest more hrest hmore
  obtain ⟨us, hus, hrun⟩ := h.run file line offset _ _ (hg rest hrest) hrun'
  refine ⟨us ++ vs, ⟨us, vs, rfl, hus, hvs⟩, ?_⟩
  rw [List.append_assoc, List.append_assoc, hrun]

theorem reads_blank : Reads [' '] (fun _ => True) (· = []) := by
  refine ⟨by simp, fun file line offset rest more _ hmore => ⟨[], rfl, ?_⟩⟩
  refine lexLine_cons.mpr ⟨⟨none, [' '], rest⟩, more, ?_, hmore, rfl⟩
  rw [cut, show isBlank ' ' = true by decide, if_pos rfl]
  rfl

theorem reads_shape (h : Shape k cs) (hclean : ∀ c ∈ cs, c ≠ '\n' ∧ c ≠ '\r') :
    Reads cs Apart fun ts => ∃ t, ts = [t] ∧ t.kind = k ∧ t.value = String.ofList cs := by
  refine ⟨hclean, fun file line offset rest more hrest hmore => ?_⟩
  cases cs with
  | nil => nomatch h
  | cons c cs =>
    refine ⟨[⟨k, String.ofList (c :: cs), ⟨line, offset + 1, file⟩⟩], ⟨_, rfl, rfl, rfl⟩, ?_⟩
    exact lexLine_cons.mpr ⟨⟨some k, c :: cs, rest⟩, more, cut_shape h hrest.bounded, hmore, rfl⟩

theorem reads_text (v : String) (h : Shape k v.toList)
    (hclean : ∀ c ∈ v.toList, c ≠ '\n' ∧ c ≠ '\r') : Reads v.toList Apart (Single v) := by
  refine (reads_shape h hclean).mono ?_
  rintro _ ⟨t, rfl, _, hv⟩
  exact ⟨t, rfl, by rw [hv, String.ofList_toList]⟩

/-- An opening parenthesis is a token whatever follows. -/
theorem reads_open : Reads ['('] (fun _ => True) (Single "(") := by
  refine ⟨by simp, fun file line offset rest more _ hmore => ?_⟩
  refine ⟨[⟨.delimiter, "(", ⟨line, offset + 1, file⟩⟩], ⟨_, rfl, rfl⟩, ?_⟩
  refine lexLine_cons.mpr ⟨⟨some .delimiter, ['('], rest⟩, more, ?_, hmore, rfl⟩
  rw [cut, show isBlank '(' = false by decide]
  exact cutSymbol_single rfl fun h => absurd h (by decide)

theorem Reads.indent (h : Reads cs f P) (hpad : ∀ c ∈ pad, c = ' ') : Reads (pad ++ cs) f P := by
  induction pad with
  | nil => exact h
  | cons c pad ih =>
    rw [List.forall_mem_cons] at hpad
    obtain ⟨rfl, hpad⟩ := hpad
    refine (reads_blank.append (ih hpad) fun _ _ => trivial).mono ?_
    rintro _ ⟨_, vs, rfl, rfl, hvs⟩
    exact hvs

/-- Two texts with a blank between them. -/
theorem Reads.gap (h : Reads cs Apart P) (h' : Reads ds f Q) :
    Reads (cs ++ ' ' :: ds) f (Seq P Q) := by
  have hblank : Reads ([' '] ++ ds) f Q := h'.indent (by simp)
  exact h.append hblank fun _ _ => apart_cons (by decide) (by decide)

/-- A text behind a parenthesis. -/
theorem Reads.opened (h : Reads cs f P) : Reads ('(' :: cs) f (Seq (Single "(") P) :=
  reads_open.append h fun _ _ => trivial

def isFixed (v : String) : Bool :=
  v.toList.all (fun c => c ≠ '\n' && c ≠ '\r') &&
    match v.toList with
    | [] => false
    | [c] => isNameChar c || (symbolKind? c).isSome
    | c :: cs => (c :: cs).all isNameChar || (joinsEquals c && cs = ['='])

theorem shape_of_fixed {v : String} (h : isFixed v = true) : ∃ k, Shape k v.toList := by
  rw [isFixed, Bool.and_eq_true] at h
  obtain ⟨-, h⟩ := h
  split at h
  · simp at h
  next c hv =>
    rw [hv]
    rcases Bool.or_eq_true_iff.mp h with name | symbol
    · exact ⟨_, .word (by simpa using name)⟩
    · obtain ⟨k, hk⟩ := Option.isSome_iff_exists.mp symbol
      exact ⟨k, .symbol hk⟩
  next c cs _ hv =>
    rw [hv]
    rcases Bool.or_eq_true_iff.mp h with name | pair
    · exact ⟨_, .word (List.all_eq_true.mp name)⟩
    · simp only [Bool.and_eq_true, decide_eq_true_eq] at pair
      rw [pair.2]
      exact ⟨_, .pair pair.1⟩

/-- A token of fixed text. -/
theorem reads_fixed (v : String) (h : isFixed v = true) : Reads v.toList Apart (Single v) := by
  obtain ⟨k, hshape⟩ := shape_of_fixed h
  rw [isFixed, Bool.and_eq_true, List.all_eq_true] at h
  exact reads_text v hshape fun c hc => by simpa using h.1 c hc

/-- A text before a parenthesis. -/
theorem Reads.closed (h : Reads cs Apart P) : Reads (cs ++ [')']) Apart (Seq P (Single ")")) :=
  h.append (reads_fixed ")" (by decide)) fun _ _ => apart_cons (by decide) (by decide)

theorem reads_nil : Reads [] f (· = []) :=
  ⟨by simp, fun _ _ _ _ _ _ hmore => ⟨[], rfl, hmore⟩⟩

end Lexer

-- ---------------------------------------------------------------------------
-- Lines
-- ---------------------------------------------------------------------------

namespace LineReader

open Lexer

variable {file : String} {count : Nat} {lines : List String} {P Q : List Token → Prop}

/-- The lines are read as tokens of which `P` holds, with any blanks before each of them. -/
structure ReadsLines (lines : List String) (P : List Token → Prop) : Prop where
  clean : ∀ l ∈ lines, '\n' ∉ l.toList
  run : ∀ pad, (∀ c ∈ pad, c = ' ') → ∀ file count after more left,
    lexLines file (count + lines.length) after = (.ok more, left) →
    ∃ ts, P ts ∧
      lexLines file count (lines.map (fun l => Text.encode (pad ++ l.toList)) ++ after) =
        (.ok (ts ++ more), left)

theorem dropCarriageReturn_encode (h : '\r' ∉ cs) :
    dropCarriageReturn (Text.encode cs) = Text.encode cs := by
  have hlast : (Text.encode cs).getLast? ≠ some carriageReturn := fun hlast =>
    h (Text.mem_of_mem_encode (List.mem_of_getLast? hlast) (by decide))
  rw [dropCarriageReturn, if_neg hlast]

theorem lexBytes_encode (h : Reads cs Apart P) :
    ∃ ts, P ts ∧ lexBytes file n (Text.encode cs) = .ok ts := by
  have hclean : '\r' ∉ cs := fun hc => (h.clean _ hc).2 rfl
  obtain ⟨ts, hts, hrun⟩ := h.run file n 0 [] [] apart_nil (by rw [lexLine])
  refine ⟨ts, hts, ?_⟩
  rw [lexBytes, dropCarriageReturn_encode hclean, Text.decode_encode]
  simpa using hrun

theorem ReadsLines.mono (h : ReadsLines lines P) (hPQ : ∀ ts, P ts → Q ts) :
    ReadsLines lines Q := by
  refine ⟨h.clean, fun pad hpad file count after more left hmore => ?_⟩
  obtain ⟨ts, hts, hrun⟩ := h.run pad hpad file count after more left hmore
  exact ⟨ts, hPQ ts hts, hrun⟩

theorem readsLines_nil : ReadsLines [] (· = []) :=
  ⟨by simp, fun _ _ _ _ _ _ _ hmore => ⟨[], rfl, hmore⟩⟩

theorem readsLines_line {text : String} (h : Reads text.toList Apart P) :
    ReadsLines [text] P := by
  refine ⟨by simpa using fun hc => (h.clean _ hc).1 rfl, ?_⟩
  intro pad hpad file count after more left hmore
  obtain ⟨ts, hts, hrun⟩ := lexBytes_encode (n := count + 1) (h.indent hpad)
  refine ⟨ts, hts, ?_⟩
  simp only [List.map_cons, List.map_nil, List.singleton_append]
  rw [lexLines, hrun]
  simp only [List.length_singleton] at hmore
  rw [hmore]

theorem ReadsLines.append {more : List String} (h : ReadsLines lines P) (h' : ReadsLines more Q) :
    ReadsLines (lines ++ more) (Seq P Q) := by
  refine ⟨List.forall_mem_append.mpr ⟨h.clean, h'.clean⟩, ?_⟩
  intro pad hpad file count after last left hlast
  rw [List.length_append, ← Nat.add_assoc] at hlast
  obtain ⟨vs, hvs, hrun'⟩ := h'.run pad hpad file _ after last left hlast
  obtain ⟨us, hus, hrun⟩ := h.run pad hpad file count _ _ left hrun'
  refine ⟨us ++ vs, ⟨us, vs, rfl, hus, hvs⟩, ?_⟩
  rw [List.map_append, List.append_assoc, List.append_assoc, hrun]

theorem indent_blank : ∀ c ∈ Render.indent.toList, c = ' ' := by simp [Render.indent]

theorem ReadsLines.indent (h : ReadsLines lines P) : ReadsLines (Render.indentAll lines) P := by
  refine ⟨?_, ?_⟩
  · simp only [Render.indentAll, List.forall_mem_map, String.toList_append, List.mem_append, not_or]
    exact fun l hl => ⟨by decide, h.clean l hl⟩
  · intro pad hpad file count after more left hmore
    have hpad' : ∀ c ∈ pad ++ Render.indent.toList, c = ' ' :=
      List.forall_mem_append.mpr ⟨hpad, indent_blank⟩
    rw [Render.indentAll, List.length_map] at hmore
    obtain ⟨ts, hts, hrun⟩ := h.run _ hpad' file count after more left hmore
    refine ⟨ts, hts, ?_⟩
    simpa [Render.indentAll, List.map_map, Function.comp_def, String.toList_append] using hrun

theorem linesOf_of_clean [DecidableEq α] {feed : α} {cs : List α} (h : feed ∉ cs) :
    Text.linesOf feed cs = [cs] := by
  induction cs with
  | nil => rfl
  | cons c cs ih =>
    rw [List.mem_cons, not_or] at h
    rw [Text.linesOf, if_neg (Ne.symm h.1), ih h.2]

theorem readsLines_split {text : String} (h : Reads text.toList Apart P) :
    ReadsLines (Text.split text) P := by
  have hsplit : Text.split text = [text] := by
    rw [Text.split_string, linesOf_of_clean fun hc => (h.clean _ hc).1 rfl, List.map_singleton,
      String.ofList_toList]
  rw [hsplit]
  exact readsLines_line h

-- ---------------------------------------------------------------------------
-- Whole texts
-- ---------------------------------------------------------------------------

theorem splitLines_line (h : lineFeed ∉ line) :
    splitLines (line ++ lineFeed :: rest) =
      (line :: (splitLines rest).1, (splitLines rest).2) := by
  induction line with
  | nil => simp [splitLines]
  | cons b line ih =>
    rw [List.mem_cons, not_or] at h
    rw [List.cons_append, splitLines, ih h.2]
    simp only [Ne.symm h.1, if_false]

theorem splitLines_flatMap (h : ∀ l ∈ ls, lineFeed ∉ l) :
    splitLines (ls.flatMap (· ++ [lineFeed])) = (ls, []) := by
  induction ls with
  | nil => rfl
  | cons l ls ih =>
    rw [List.forall_mem_cons] at h
    rw [List.flatMap_cons, List.append_assoc, List.singleton_append, splitLines_line h.1, ih h.2]

theorem bytesOf_unlines (lines : List String) :
    Text.bytesOf (Render.unlines lines) =
      (lines.map fun l => Text.encode l.toList).flatMap (· ++ [lineFeed]) := by
  induction lines with
  | nil => rfl
  | cons l lines ih =>
    rw [Render.unlines, Text.bytesOf_append, Text.bytesOf_append, ih]
    rfl

/-- Lines that are read as some tokens are so read as a source. -/
theorem tokenize_unlines (h : ReadsLines lines P) (file : String) :
    ∃ ts, P ts ∧
      tokenize file ⟨Text.bytesOf (Render.unlines lines), none⟩ = .ok ts := by
  have hfeed : ∀ l ∈ lines.map (fun l => Text.encode l.toList), lineFeed ∉ l := by
    rw [List.forall_mem_map]
    exact fun l hl hb => h.clean l hl (Text.mem_of_mem_encode hb (by decide))
  obtain ⟨ts, hts, hrun⟩ := h.run [] (by simp) file 0 [] [] (lines.length, []) (by simp [lexLines])
  refine ⟨ts, hts, ?_⟩
  simp only [List.nil_append, List.append_nil] at hrun
  rw [tokenize, ofSource, bytesOf_unlines, splitLines_flatMap hfeed, tokens]
  simp only [hrun, if_true]

end LineReader

end SplatLang
