import Mathlib.Data.List.DropRight
import SplatLang.Proofs.Lexer.Cutting
import SplatLang.Proofs.Lexer.Reading
import SplatLang.Proofs.Relocate

/-!
# Line by line

The lexer reads one line after the other and takes nothing from a line to the next but the number
of lines read. So what a text comes to below other lines is what it comes to by itself, further
down; a source whose reading breaks off comes to what its complete lines come to; and a reader that
is asked again after a fault goes on as if the text behind the faulty line were a source of its own.

That reading breaks off is no matter of a line. Such a fault is given at the start of the source,
and stays there whatever stands above.
-/

namespace SplatLang

-- ---------------------------------------------------------------------------
-- Further down
-- ---------------------------------------------------------------------------

def Position.down (k : Nat) (p : Position) : Position := { p with line := p.line + k }

def LexFault.below (k : Nat) (f : LexFault) : LexFault :=
  match f.cause with
  | .unreadable _ => f
  | _ => f.relocate (Position.down k)

/-- What a text comes to if it stands below `k` lines. -/
def below (k : Nat) : Except LexFault (List Token) → Except LexFault (List Token)
  | .ok ts => .ok (ts.map (Token.relocate (Position.down k)))
  | .error f => .error (f.below k)

theorem LexFault.below_of_readable {f : LexFault} (h : ∀ reason, f.cause ≠ .unreadable reason) :
    f.below k = f.relocate (Position.down k) := by
  unfold LexFault.below
  split
  next reason heq => exact absurd heq (h reason)
  · rfl

theorem Position.down_mk (line k : Nat) (column : Int) (file : String) :
    Position.down k ⟨line, column, file⟩ = ⟨(line + k : Nat), column, file⟩ := by
  simp [Position.down]

namespace Lexer

/-- No text of a line says that a source cannot be read. -/
theorem cut_readable (h : cut c cs = .error cause) (reason : String) :
    cause ≠ .unreadable reason := by
  rintro rfl
  unfold cut cutString cutSymbol at h
  repeat' split at h
  all_goals cases h

theorem lexLine_below (file : String) (line offset : Nat) (cs : List Char) :
    lexLine file (line + k) offset cs = below k (lexLine file line offset cs) := by
  fun_induction lexLine file line offset cs with
  | case1 offset =>
    rw [lexLine]
    rfl
  | case2 offset c rest here cause hcut =>
    rw [lexLine_cons_error.mpr (.inl ⟨cause, hcut, rfl⟩), below,
      LexFault.below_of_readable (cut_readable hcut), At.relocate, Position.down_mk]
  | case3 offset c rest piece hcut _ fault hrest ih =>
    rw [hrest] at ih
    rw [lexLine_cons_error.mpr (.inr ⟨piece, hcut, ih⟩), below]
  | case4 offset c rest piece hcut _ tokens hrest hkind ih =>
    rw [hrest] at ih
    rw [lexLine_cons.mpr ⟨piece, _, hcut, ih, rfl⟩, Piece.tokens, hkind, below]
    rfl
  | case5 offset c rest here piece hcut _ tokens hrest kind hkind ih =>
    rw [hrest] at ih
    rw [lexLine_cons.mpr ⟨piece, _, hcut, ih, rfl⟩, Piece.tokens, hkind, below, List.map_cons,
      Token.relocate, Position.down_mk]
    rfl

end Lexer

namespace LineReader

open Lexer

variable {file : String} {count : Nat} {lines : List Text.Bytes}

def advanced (k : Nat) (r : LineReader) : LineReader := { r with count := r.count + k }

theorem lexBytes_below (file : String) (line : Nat) (bytes : Text.Bytes) :
    lexBytes file (line + k) bytes = below k (lexBytes file line bytes) :=
  lexLine_below file line 0 _

theorem lexLines_below (file : String) (count : Nat) (lines : List Text.Bytes) :
    lexLines file (count + k) lines =
      (below k (lexLines file count lines).1, (lexLines file count lines).2.1 + k,
        (lexLines file count lines).2.2) := by
  induction lines generalizing count with
  | nil => rfl
  | cons line lines ih =>
    have hcount : count + k + 1 = count + 1 + k := Nat.add_right_comm count k 1
    rw [lexLines, lexLines, hcount, lexBytes_below, ih]
    cases lexBytes file (count + 1) line with
    | error f => rfl
    | ok here =>
      obtain ⟨result, left, hlines⟩ :
        ∃ result left, lexLines file (count + 1) lines = (result, left) := ⟨_, _, rfl⟩
      rw [hlines]
      cases result with
      | error f => rfl
      | ok more => simp [below]

theorem tokens_advanced (k : Nat) (r : LineReader) :
    (r.advanced k).tokens = (below k r.tokens.1, r.tokens.2.advanced k) := by
  obtain ⟨file, count, lines, tail, failure⟩ := r
  simp only [advanced, tokens, lexLines_below]
  obtain ⟨result, n, left, hlines⟩ :
    ∃ result n left, lexLines file count lines = (result, n, left) := ⟨_, _, _, rfl⟩
  rw [hlines]
  cases result with
  | error f => rfl
  | ok ts =>
    cases failure with
    | some reason => rfl
    | none =>
      by_cases htail : tail = []
      · simp [htail, below]
      · have hbytes : lexBytes file (n + k + 1) tail = below k (lexBytes file (n + 1) tail) := by
          rw [Nat.add_right_comm, lexBytes_below]
        simp only [htail, if_false, below, hbytes]
        rw [Nat.add_right_comm]
        cases lexBytes file (n + 1) tail with
        | error f => rfl
        | ok more => simp

-- ---------------------------------------------------------------------------
-- Texts above each other
-- ---------------------------------------------------------------------------

def Complete (text : Text.Bytes) : Prop := text = [] ∨ text.getLast? = some lineFeed

/-- A text is its complete lines, each with its line feed, and what stands behind them. -/
theorem join_splitLines (text : Text.Bytes) :
    (splitLines text).1.flatMap (· ++ [lineFeed]) ++ (splitLines text).2 = text := by
  induction text with
  | nil => rfl
  | cons b rest ih =>
    obtain ⟨lines, tail, hsplit⟩ : ∃ lines tail, splitLines rest = (lines, tail) := ⟨_, _, rfl⟩
    rw [hsplit] at ih
    rw [splitLines, hsplit]
    by_cases hb : b = lineFeed
    · simpa [hb] using ih
    · cases lines with
      | nil => simpa [hb] using ih
      | cons line lines => simpa [hb] using ih

theorem splitLines_lines {ls : List Text.Bytes} (h : ∀ l ∈ ls, lineFeed ∉ l)
    (more : Text.Bytes) :
    splitLines (ls.flatMap (· ++ [lineFeed]) ++ more) =
      (ls ++ (splitLines more).1, (splitLines more).2) := by
  induction ls with
  | nil => rfl
  | cons l ls ih =>
    rw [List.forall_mem_cons] at h
    rw [List.flatMap_cons, List.append_assoc, List.append_assoc, List.singleton_append,
      splitLines_line h.1, ih h.2, List.cons_append]

theorem splitLines_complete (h : Complete text) : (splitLines text).2 = [] := by
  obtain rfl | hlast := h
  · rfl
  · by_contra htail
    -- Otherwise the text would end where its last line does, which has no line feed.
    rw [← join_splitLines text, List.getLast?_append_of_ne_nil _ htail] at hlast
    exact (splitLines_noFeed text).2 (List.mem_of_getLast? hlast)

theorem splitLines_append (h : Complete text) (more : Text.Bytes) :
    splitLines (text ++ more) =
      ((splitLines text).1 ++ (splitLines more).1, (splitLines more).2) := by
  have hjoin := join_splitLines text
  rw [splitLines_complete h, List.append_nil] at hjoin
  rw [← splitLines_lines (splitLines_noFeed text).1, hjoin]

theorem length_splitLines (text : Text.Bytes) :
    (splitLines text).1.length = text.count lineFeed := by
  induction text with
  | nil => rfl
  | cons b rest ih =>
    obtain ⟨lines, tail, hsplit⟩ : ∃ lines tail, splitLines rest = (lines, tail) := ⟨_, _, rfl⟩
    rw [hsplit] at ih
    rw [splitLines, hsplit, List.count_cons, ← ih]
    by_cases hb : b = lineFeed
    · simp [hb]
    · cases lines with
      | nil => simp [hb]
      | cons line lines => simp [hb]

theorem splitLines_open (h : lineFeed ∉ text) : splitLines text = ([], text) := by
  have hlines : (splitLines text).1 = [] := by
    rw [← List.length_eq_zero_iff, length_splitLines, List.count_eq_zero]
    exact h
  have hjoin := join_splitLines text
  rw [hlines, List.flatMap_nil, List.nil_append] at hjoin
  exact Prod.ext hlines hjoin

def lexRest (file : String) (n : Nat) (tail : Text.Bytes) :
    Option String → Except LexFault (List Token)
  | some reason => .error ⟨.unreadable reason, ⟨1, 1, file⟩⟩
  | none => lexBytes file (n + 1) tail

theorem lexBytes_nil (file : String) (n : Nat) : lexBytes file n [] = .ok [] := by
  rw [lexBytes, show Text.decode (dropCarriageReturn []) = [] from rfl, lexLine]

/-- Complete lines are lexed first, and then the rest of the text. -/
theorem tokens_fst (r : LineReader) :
    r.tokens.1 = do
      let ts ← lexFrom r.file (r.count + 1) (r.lines.map decodeLine)
      let us ← lexRest r.file (r.count + r.lines.length) r.tail r.failure
      return ts ++ us := by
  obtain ⟨file, count, lines, tail, failure⟩ := r
  obtain ⟨result, n, left, hlines⟩ :
    ∃ result n left, lexLines file count lines = (result, n, left) := ⟨_, _, _, rfl⟩
  rw [← lexLines_fst, tokens, hlines]
  cases result with
  | error f => rfl
  | ok ts =>
    rw [← lexLines_count hlines]
    cases failure with
    | some reason => rfl
    | none =>
      by_cases htail : tail = []
      · simp [htail, lexRest, lexBytes_nil, bind, Except.bind, pure, Except.pure]
      · simp only [htail, if_false, lexRest]
        cases lexBytes file (n + 1) tail <;> rfl

theorem tokenize_complete (h : Complete text) :
    tokenize file ⟨text, none⟩ = lexFrom file 1 ((splitLines text).1.map decodeLine) := by
  simp only [tokenize, ofSource, tokens_fst, splitLines_complete h, lexRest, lexBytes_nil]
  cases lexFrom file 1 ((splitLines text).1.map decodeLine) with
  | error f => rfl
  | ok ts => simp [bind, Except.bind, pure, Except.pure]

theorem tokenize_append (h : Complete text) (more : Text.Bytes) (failure : Option String) :
    tokenize file ⟨text ++ more, failure⟩ = do
      let ts ← tokenize file ⟨text, none⟩
      let us ← below (text.count lineFeed) (tokenize file ⟨more, failure⟩)
      return ts ++ us := by
  have hbelow : below (text.count lineFeed) (tokenize file ⟨more, failure⟩) = _ :=
    (congrArg Prod.fst (tokens_advanced (text.count lineFeed) (ofSource file ⟨more, failure⟩))).symm
  rw [tokenize_complete h, hbelow, tokenize, tokens_fst, tokens_fst]
  simp only [ofSource, advanced, splitLines_append h, List.map_append, lexFrom_append,
    List.length_append, List.length_map, length_splitLines, Nat.zero_add, Nat.add_comm 1]
  cases lexFrom file 1 ((splitLines text).1.map decodeLine) with
  | error f => rfl
  | ok ts =>
    cases lexFrom file (text.count lineFeed + 1) ((splitLines more).1.map decodeLine) with
    | error f => rfl
    | ok us =>
      cases lexRest file (text.count lineFeed + more.count lineFeed) (splitLines more).2
        failure with
      | error f => rfl
      | ok vs => simp [bind, Except.bind, pure, Except.pure]

-- ---------------------------------------------------------------------------
-- Readers that fail
-- ---------------------------------------------------------------------------

def completeLines (text : Text.Bytes) : Text.Bytes := text.rdropWhile (· ≠ lineFeed)

theorem completeLines_complete (text : Text.Bytes) : Complete (completeLines text) := by
  by_cases hnil : completeLines text = []
  · exact .inl hnil
  · have hlast := List.rdropWhile_last_not _ text hnil
    refine .inr ?_
    rw [List.getLast?_eq_some_getLast hnil]
    simpa [completeLines] using hlast

/-- If reading breaks off before the first line feed, there is nothing to lex. -/
theorem tokenize_unreadable (h : lineFeed ∉ text) (reason : String) :
    tokenize file ⟨text, some reason⟩ = .error ⟨.unreadable reason, ⟨1, 1, file⟩⟩ := by
  simp only [tokenize, ofSource, tokens, splitLines_open h, lexLines]

theorem tokenize_failing (text : Text.Bytes) (reason : String) :
    tokenize file ⟨text, some reason⟩ = (do
      let _ ← tokenize file ⟨completeLines text, none⟩
      .error ⟨.unreadable reason, ⟨1, 1, file⟩⟩) := by
  have htail : lineFeed ∉ text.rtakeWhile (· ≠ lineFeed) := fun h => by
    simpa using List.mem_rtakeWhile_imp h
  have hsplit : text = completeLines text ++ text.rtakeWhile (· ≠ lineFeed) :=
    (List.rdropWhile_append_rtakeWhile ..).symm
  nth_rewrite 1 [hsplit]
  rw [tokenize_append (completeLines_complete text), tokenize_unreadable htail]
  rfl

-- ---------------------------------------------------------------------------
-- Repeated calls
-- ---------------------------------------------------------------------------

/-- What a reader gives when it is asked for its tokens again and again. -/
def results : (calls : Nat) → LineReader → List (Except LexFault (List Token))
  | 0, _ => []
  | calls + 1, r => r.tokens.1 :: results calls r.tokens.2

def afterLine : (k : Nat) → Text.Bytes → Text.Bytes
  | 0, text => text
  | _ + 1, [] => []
  | k + 1, b :: rest => if b = lineFeed then afterLine k rest else afterLine (k + 1) rest

theorem results_advanced (k calls : Nat) (r : LineReader) :
    results calls (r.advanced k) = (results calls r).map (below k) := by
  induction calls generalizing r with
  | zero => rfl
  | succ calls ih => rw [results, results, tokens_advanced, ih, List.map_cons]

theorem afterLine_zero (text : Text.Bytes) : afterLine 0 text = text := by
  cases text <;> rfl

theorem afterLine_line (h : lineFeed ∉ line) :
    afterLine (k + 1) (line ++ lineFeed :: rest) = afterLine k rest := by
  induction line with
  | nil => simp [afterLine]
  | cons b line ih =>
    rw [List.mem_cons, not_or] at h
    rw [List.cons_append, afterLine, if_neg (Ne.symm h.1), ih h.2]

theorem afterLine_lines {ls : List Text.Bytes} (h : ∀ l ∈ ls, lineFeed ∉ l)
    (more : Text.Bytes) :
    afterLine (ls.length + k) (ls.flatMap (· ++ [lineFeed]) ++ more) = afterLine k more := by
  induction ls with
  | nil => simp
  | cons l ls ih =>
    rw [List.forall_mem_cons] at h
    rw [List.length_cons, Nat.add_right_comm, List.flatMap_cons, List.append_assoc,
      List.append_assoc, List.singleton_append, afterLine_line h.1, ih h.2]

theorem afterLine_noFeed (h : lineFeed ∉ text) : afterLine (k + 1) text = [] := by
  induction text with
  | nil => rfl
  | cons b rest ih =>
    rw [List.mem_cons, not_or] at h
    rw [afterLine, if_neg (Ne.symm h.1), ih h.2]

/-- The lines behind the first `k` are those of the text there. -/
theorem splitLines_afterLine (h : k ≤ (splitLines text).1.length) :
    splitLines (afterLine k text) = ((splitLines text).1.drop k, (splitLines text).2) := by
  obtain ⟨lines, tail, hsplit⟩ : ∃ lines tail, splitLines text = (lines, tail) := ⟨_, _, rfl⟩
  obtain ⟨hlines, htail⟩ := splitLines_noFeed text
  have hjoin := join_splitLines text
  rw [hsplit] at h hlines htail hjoin ⊢
  have hafter : afterLine k text = (lines.drop k).flatMap (· ++ [lineFeed]) ++ tail := by
    have htaken : ∀ l ∈ lines.take k, lineFeed ∉ l := fun l hl => hlines l (List.mem_of_mem_take hl)
    have hskip := afterLine_lines (k := 0) htaken
      ((lines.drop k).flatMap (· ++ [lineFeed]) ++ tail)
    rw [← List.append_assoc, ← List.flatMap_append, List.take_append_drop, hjoin,
      List.length_take_of_le h, afterLine_zero] at hskip
    exact hskip
  rw [hafter, splitLines_lines fun l hl => hlines l (List.mem_of_mem_drop hl),
    splitLines_open htail, List.append_nil]

theorem afterLine_past (h : (splitLines text).1.length < k) : afterLine k text = [] := by
  obtain ⟨hlines, htail⟩ := splitLines_noFeed text
  obtain ⟨d, rfl⟩ := Nat.exists_eq_add_of_lt h
  rw [Nat.add_assoc]
  nth_rewrite 2 [← join_splitLines text]
  rw [afterLine_lines hlines, afterLine_noFeed htail]

theorem lexBytes_error (h : lexBytes file line bytes = .error f) :
    f.location.line = line ∧ ∀ reason, f.cause ≠ .unreadable reason := by
  obtain ⟨front, c, rest, fs, -, -, hloc, hcut⟩ := lexLine_stops h
  exact ⟨by rw [hloc], cut_readable hcut⟩

theorem lexLines_left (h : lexLines file count lines = (.ok ts, n, left)) : left = [] := by
  induction lines generalizing count ts with
  | nil =>
    cases h
    rfl
  | cons line lines ih =>
    rw [lexLines] at h
    split at h
    · cases h
    · split at h
      next hlines =>
        cases h
        exact ih hlines
      · cases h

/-- A fault among complete lines stands in the last line that was read. -/
theorem lexLines_error (h : lexLines file count lines = (.error f, n, left)) :
    ∃ d, n = count + d ∧ d ≤ lines.length ∧ left = lines.drop d ∧ f.location.line = n := by
  induction lines generalizing count with
  | nil => cases h
  | cons line lines ih =>
    rw [lexLines] at h
    split at h
    next hline =>
      cases h
      exact ⟨1, rfl, by simp, rfl, (lexBytes_error hline).1⟩
    · split at h
      · cases h
      next hlines =>
        cases h
        obtain ⟨d, rfl, hle, hleft, hloc⟩ := ih hlines
        exact ⟨d + 1, by omega, by simpa using hle, hleft, hloc⟩

/-- What is left after a fault is the text behind its line. -/
theorem tokens_fault {src : Source} (h : (ofSource file src).tokens.1 = .error f)
    (hreadable : ∀ reason, f.cause ≠ .unreadable reason) :
    ∃ k : Nat, f.location.line = k ∧ (ofSource file src).tokens.2 =
      (ofSource file { src with bytes := afterLine k src.bytes }).advanced k := by
  obtain ⟨text, failure⟩ := src
  obtain ⟨lines, tail, hsplit⟩ : ∃ lines tail, splitLines text = (lines, tail) := ⟨_, _, rfl⟩
  obtain ⟨result, n, left, hlines⟩ :
    ∃ result n left, lexLines file 0 lines = (result, n, left) := ⟨_, _, _, rfl⟩
  simp only [ofSource, hsplit, tokens, hlines] at h ⊢
  cases result with
  | error g =>
    cases h
    obtain ⟨d, rfl, hle, rfl, hloc⟩ := lexLines_error hlines
    have hafter : splitLines (afterLine d text) = (lines.drop d, tail) := by
      rw [splitLines_afterLine (by rwa [hsplit]), hsplit]
    refine ⟨d, by simpa using hloc, ?_⟩
    rw [hafter]
    rfl
  | ok ts =>
    have hn := lexLines_count hlines
    cases failure with
    | some reason =>
      cases h
      exact absurd rfl (hreadable reason)
    | none =>
      by_cases htail : tail = []
      · simp [htail] at h
      · -- The fault is in the last line, which has no line feed.
        simp only [htail, if_false] at h ⊢
        cases hbytes : lexBytes file (n + 1) tail with
        | ok more => simp [hbytes] at h
        | error g =>
          simp only [hbytes, Except.error.injEq] at h
          subst h
          have hpast : (splitLines text).1.length < n + 1 := by
            rw [hsplit, hn]
            simp
          refine ⟨n + 1, (lexBytes_error hbytes).1, ?_⟩
          rw [afterLine_past hpast, lexLines_left hlines]
          simp [advanced, splitLines]

/-- Nothing is left after the end of a source. -/
theorem tokens_ok {src : Source} (h : (ofSource file src).tokens.1 = .ok ts) :
    ∃ n, (ofSource file src).tokens.2 = ⟨file, n, [], [], none⟩ := by
  obtain ⟨text, failure⟩ := src
  obtain ⟨lines, tail, hsplit⟩ : ∃ lines tail, splitLines text = (lines, tail) := ⟨_, _, rfl⟩
  obtain ⟨result, n, left, hlines⟩ :
    ∃ result n left, lexLines file 0 lines = (result, n, left) := ⟨_, _, _, rfl⟩
  simp only [ofSource, hsplit, tokens, hlines] at h ⊢
  cases result with
  | error g => cases h
  | ok here =>
    cases lexLines_left hlines
    cases failure with
    | some reason => cases h
    | none =>
      by_cases htail : tail = []
      · exact ⟨n, by simp [htail]⟩
      · exact ⟨n + 1, by simp [htail]⟩

theorem results_finished (file : String) (n calls : Nat) :
    results calls ⟨file, n, [], [], none⟩ = List.replicate calls (.ok []) := by
  induction calls with
  | zero => rfl
  | succ calls ih =>
    rw [List.replicate_succ, ← ih]
    rfl

end LineReader

open LineReader

/-- Lexing goes line by line. Complete lines above a text are lexed first, and the text below them
comes to what it comes to by itself, with every line number increased by their number. A source
whose reading breaks off has the fault of its complete lines if there is one, or else one that says
so. After a fault in line `k`, all that further calls give is what a reader of the text behind that
line gives, with every line number increased by `k`; after the end of the source they give
nothing. -/
theorem lexing_line_by_line (file : String) :
    (∀ text more failure, Complete text →
      tokenize file ⟨text ++ more, failure⟩ = do
        let ts ← tokenize file ⟨text, none⟩
        let us ← below (text.count lineFeed) (tokenize file ⟨more, failure⟩)
        return ts ++ us) ∧
    (∀ (text : Text.Bytes) n reason, ∃ f : LexFault,
      f.report = ⟨.lex, "Error reading file: " ++ reason, ⟨1, 1, file⟩⟩ ∧
      tokenize file ⟨text.take n, some reason⟩ = do
        let _ ← tokenize file ⟨completeLines (text.take n), none⟩
        throw f) ∧
    (∀ src f, tokenize file src = .error f → (∀ reason, f.cause ≠ .unreadable reason) →
      ∃ k : Nat, f.location.line = k ∧ ∀ calls, results (calls + 1) (ofSource file src) =
        .error f ::
          (results calls (ofSource file { src with bytes := afterLine k src.bytes })).map
            (below k)) ∧
    ∀ src ts, tokenize file src = .ok ts → ∀ calls,
      results (calls + 1) (ofSource file src) = .ok ts :: List.replicate calls (.ok []) := by
  refine ⟨fun text more failure h => tokenize_append h more failure, fun text n reason => ?_,
    fun src f h hreadable => ?_, fun src ts h calls => ?_⟩
  · exact ⟨_, rfl, tokenize_failing (text.take n) reason⟩
  · obtain ⟨k, hloc, hleft⟩ := tokens_fault h hreadable
    refine ⟨k, hloc, fun calls => ?_⟩
    rw [results, hleft, results_advanced]
    exact congrArg (· :: _) h
  · obtain ⟨n, hleft⟩ := tokens_ok h
    rw [results, hleft, results_finished]
    exact congrArg (· :: _) h

/-- A line with a character that cannot stand there, between two lines that are in order. -/
def interrupted : Text.Bytes := Text.bytesOf "$\n y"

theorem tokenize_interrupted :
    tokenize "" ⟨Text.bytesOf "x\n", none⟩ = .ok [⟨.ident, "x", ⟨1, 1, ""⟩⟩] ∧
      tokenize "" ⟨interrupted, none⟩ = .error ⟨.invalidCharacter '$', ⟨1, 1, ""⟩⟩ ∧
      tokenize "" ⟨Text.bytesOf " y", none⟩ = .ok [⟨.ident, "y", ⟨1, 2, ""⟩⟩] := by
  refine ⟨by cbv, by cbv, by cbv⟩

/-- The fault of the second line is found below the first one, also if reading breaks off in the
third; the next call goes on with the third line. -/
theorem lexing_line_by_line_interrupted :
    Complete (Text.bytesOf "x\n") ∧
    results 3 (ofSource "" ⟨Text.bytesOf "x\n" ++ interrupted, none⟩) =
      [.error ⟨.invalidCharacter '$', ⟨2, 1, ""⟩⟩, .ok [⟨.ident, "y", ⟨3, 2, ""⟩⟩], .ok []] ∧
    tokenize "" ⟨(Text.bytesOf "x\n" ++ interrupted).take 5, some "gone"⟩ =
      .error ⟨.invalidCharacter '$', ⟨2, 1, ""⟩⟩ := by
  obtain ⟨hx, hinterrupted, hy⟩ := tokenize_interrupted
  obtain ⟨habove, hbroken, hfault, hend⟩ := lexing_line_by_line ""
  have hcomplete : Complete (Text.bytesOf "x\n") := .inr rfl
  have hboth : tokenize "" ⟨Text.bytesOf "x\n" ++ interrupted, none⟩ =
      .error ⟨.invalidCharacter '$', ⟨2, 1, ""⟩⟩ := by
    rw [habove _ _ _ hcomplete, hx, hinterrupted]
    rfl
  obtain ⟨k, hk, hcalls⟩ := hfault _ _ hboth nofun
  obtain rfl : 2 = k := Int.ofNat.inj hk
  have hafter : afterLine 2 (Text.bytesOf "x\n" ++ interrupted) = Text.bytesOf " y" := rfl
  obtain ⟨f, -, hbreak⟩ := hbroken (Text.bytesOf "x\n" ++ interrupted) 5 "gone"
  refine ⟨hcomplete, ?_, ?_⟩
  · rw [hcalls 2, hafter, hend _ _ hy 1]
    rfl
  · have hlines : completeLines ((Text.bytesOf "x\n" ++ interrupted).take 5) =
        Text.bytesOf "x\n" ++ Text.bytesOf "$\n" := rfl
    have hdollar : tokenize "" ⟨Text.bytesOf "$\n", none⟩ =
        .error ⟨.invalidCharacter '$', ⟨1, 1, ""⟩⟩ := by cbv
    rw [hbreak, hlines, habove _ _ _ hcomplete, hx, hdollar]
    rfl

end SplatLang
