import Mathlib
import SplatLang.Proofs.Lexer.Pieces

/-!
# Cuttings of a source

A cutting splits a line into pieces none of which goes on with the one before it. A line has at
most one cutting, the lexer finds it, and the tokens of a source are the pieces of its lines that
are not blank. A line without a cutting is at fault, and what stands before the place of the fault
can be cut.
-/

namespace SplatLang

namespace Lexer

-- ---------------------------------------------------------------------------
-- Lines
-- ---------------------------------------------------------------------------

structure Fragment where
  kind : Option TokenKind
  text : List Char
  deriving DecidableEq, Repr

/-- The fragments make up the line, and none of them goes on with the one before. -/
inductive Cutting : List Char → List Fragment → Prop
  | nil : Cutting [] []
  | cons (lexical : Lexical k text) (bounded : Bounded text rest) (tail : Cutting rest fs) :
      Cutting (text ++ rest) (⟨k, text⟩ :: fs)

/-- The tokens of a cut line: its fragments that are not blank, each with the place where it
begins. There are `offset` characters before the first fragment. -/
def tokensOn (file : String) (line : Nat) : (offset : Nat) → List Fragment → List Token
  | _, [] => []
  | offset, f :: fs =>
    (match f.kind with
      | none => []
      | some k => [⟨k, String.ofList f.text, ⟨line, offset + 1, file⟩⟩]) ++
      tokensOn file line (offset + f.text.length) fs

theorem Lexical.ne_nil (h : Lexical k text) : text ≠ [] := by
  cases h <;> simp

theorem Cutting.unique (h : Cutting cs fs) (h' : Cutting cs gs) : fs = gs := by
  induction h generalizing gs with
  | nil =>
    generalize hcs : ([] : List Char) = cs at h'
    cases h' with
    | nil => rfl
    | cons lexical _ _ => simp [lexical.ne_nil] at hcs
  | @cons k text rest fs lexical bounded tail ih =>
    generalize hcs : text ++ rest = cs at h'
    cases h' with
    | nil => simp [lexical.ne_nil] at hcs
    | @cons k' text' rest' gs lexical' bounded' tail' =>
      -- Both first pieces are the one that the lexer cuts off.
      obtain ⟨c, ds, rfl⟩ := List.exists_cons_of_ne_nil lexical.ne_nil
      have hcut : cut c (ds ++ rest) = .ok ⟨k, c :: ds, rest⟩ :=
        cut_iff.mpr ⟨lexical, bounded, rfl⟩
      have hcut' : cut c (ds ++ rest) = .ok ⟨k', text', rest'⟩ :=
        cut_iff.mpr ⟨lexical', bounded', hcs.symm⟩
      rw [hcut] at hcut'
      cases hcut'
      rw [ih tail']

theorem Lexical.kind_unique (h : Lexical k text) (h' : Lexical k' text) : k = k' := by
  have hcut : ∀ {k}, Lexical k text → Cutting (text ++ []) [⟨k, text⟩] := fun h =>
    .cons h ⟨by simp, by simp⟩ .nil
  have heq := (hcut h).unique (hcut h')
  simpa using heq

theorem tokensOn_cons (p : Piece) :
    tokensOn file line offset (⟨p.kind, p.text⟩ :: fs) =
      p.tokens ⟨line, offset + 1, file⟩ ++ tokensOn file line (offset + p.text.length) fs := rfl

theorem lexLine_iff :
    lexLine file line offset cs = .ok ts ↔
      ∃ fs, Cutting cs fs ∧ ts = tokensOn file line offset fs := by
  constructor
  · intro h
    induction hn : cs.length using Nat.strongRecOn generalizing cs offset ts with
    | ind n ih =>
      cases cs with
      | nil =>
        rw [lexLine] at h
        cases h
        exact ⟨[], .nil, rfl⟩
      | cons c cs =>
        obtain ⟨p, more, hcut, hmore, rfl⟩ := lexLine_cons.mp h
        obtain ⟨hlex, hb, hline⟩ := cut_iff.mp hcut
        obtain ⟨fs, hfs, rfl⟩ := ih _ (hn ▸ cut_rest_lt hcut) hmore rfl
        exact ⟨⟨p.kind, p.text⟩ :: fs, hline ▸ .cons hlex hb hfs, (tokensOn_cons p).symm⟩
  · rintro ⟨fs, hfs, rfl⟩
    induction hfs generalizing offset with
    | nil =>
      rw [lexLine]
      rfl
    | @cons k text rest fs lexical bounded tail ih =>
      obtain ⟨c, ds, rfl⟩ := List.exists_cons_of_ne_nil lexical.ne_nil
      exact lexLine_cons.mpr ⟨⟨k, c :: ds, rest⟩, _, cut_iff.mpr ⟨lexical, bounded, rfl⟩, ih, rfl⟩

theorem Bounded.front (h : Bounded text (cs ++ ds)) : Bounded text cs := by
  cases cs with
  | nil => exact ⟨by simp, by simp⟩
  | cons c cs => exact ⟨h.run, h.equals⟩

theorem lexLine_cons_error :
    lexLine file line offset (c :: cs) = .error f ↔
      (∃ cause, cut c cs = .error cause ∧ f = ⟨cause, ⟨line, offset + 1, file⟩⟩) ∨
      ∃ p, cut c cs = .ok p ∧ lexLine file line (offset + p.text.length) p.rest = .error f := by
  rw [lexLine]
  split
  next hcut => simp [hcut, eq_comm]
  next p hcut =>
    simp only [hcut, Except.ok.injEq, reduceCtorEq, false_and, exists_false, false_or,
      exists_eq_left']
    split
    next hrest => simp [hrest]
    next hrest =>
      simp only [hrest, reduceCtorEq, iff_false]
      split <;> simp

/-- The lexer stops where it can cut nothing off, and what stands before can be cut. -/
theorem lexLine_stops (h : lexLine file line offset cs = .error f) :
    ∃ front c rest fs, cs = front ++ c :: rest ∧ Cutting front fs ∧
      f.location = ⟨line, offset + front.length + 1, file⟩ ∧ cut c rest = .error f.cause := by
  induction hn : cs.length using Nat.strongRecOn generalizing cs offset with
  | ind n ih =>
    cases cs with
    | nil =>
      rw [lexLine] at h
      cases h
    | cons c cs =>
      rcases lexLine_cons_error.mp h with ⟨cause, hcut, rfl⟩ | ⟨p, hcut, hrest⟩
      · exact ⟨[], c, cs, [], rfl, .nil, by simp, hcut⟩
      · obtain ⟨hlex, hb, hline⟩ := cut_iff.mp hcut
        obtain ⟨front, d, rest, fs, hp, hfs, hloc, hstop⟩ := ih _ (hn ▸ cut_rest_lt hcut) hrest rfl
        rw [hp] at hb hline
        refine ⟨p.text ++ front, d, rest, ⟨p.kind, p.text⟩ :: fs, ?_, .cons hlex hb.front hfs, ?_,
          hstop⟩
        · rw [← hline, List.append_assoc]
        · rw [hloc, List.length_append]
          congr 2
          omega

theorem lexLine_error (h : lexLine file line offset cs = .error f) :
    ∃ front c rest fs, cs = front ++ c :: rest ∧ Cutting front fs ∧
      f.location = ⟨line, offset + front.length + 1, file⟩ := by
  obtain ⟨front, c, rest, fs, hcs, hfront, hloc, -⟩ := lexLine_stops h
  exact ⟨front, c, rest, fs, hcs, hfront, hloc⟩

/-- A carriage return at the end of a cut line is a piece of its own. -/
theorem Cutting.dropReturn (h : Cutting (cs ++ ['\r']) fs) :
    ∃ gs, Cutting cs gs ∧ fs = gs ++ [⟨none, ['\r']⟩] := by
  generalize hline : cs ++ ['\r'] = line at h
  induction h generalizing cs with
  | nil => simp at hline
  | @cons k text rest fs lexical bounded tail ih =>
    rcases List.eq_nil_or_concat rest with rfl | ⟨front, c, rfl⟩
    · -- The piece is the last one, and only a blank can end in a carriage return.
      rw [List.append_nil] at hline
      cases k with
      | none =>
        cases lexical with
        | blank _ =>
          have hcs : cs = [] := by simpa using congrArg List.length hline
          subst hcs
          cases hline
          exact ⟨[], .nil, by rw [tail.unique .nil, List.nil_append]⟩
      | some k =>
        have hmem : '\r' ∈ text := hline ▸ by simp
        exact absurd hmem (noReturn_of_shape (shape_of_lexical lexical))
    · rw [List.concat_eq_append, ← List.append_assoc] at hline
      obtain ⟨rfl, hc⟩ := List.append_inj' hline rfl
      cases hc
      obtain ⟨gs, hgs, rfl⟩ := ih List.concat_eq_append.symm
      rw [List.concat_eq_append] at bounded
      exact ⟨⟨k, text⟩ :: gs, .cons lexical bounded.front hgs, rfl⟩

end Lexer

-- ---------------------------------------------------------------------------
-- Sources
-- ---------------------------------------------------------------------------

namespace LineReader

open Lexer

variable {file : String} {count : Nat} {lines : List Text.Bytes}

def decodeLine (line : Text.Bytes) : List Char := Text.decode (dropCarriageReturn line)

/-- The lines of a text. What stands behind the last line feed is a line as well, if only an empty
one. -/
def sourceLines (bytes : Text.Bytes) : List (List Char) :=
  (bytes.splitOn lineFeed).map decodeLine

def lexFrom (file : String) : (line : Nat) → List (List Char) → Except LexFault (List Token)
  | _, [] => .ok []
  | line, cs :: rest => do
    let here ← lexLine file line 0 cs
    let more ← lexFrom file (line + 1) rest
    .ok (here ++ more)

theorem splitOn_eq (bytes : Text.Bytes) :
    bytes.splitOn lineFeed = (splitLines bytes).1 ++ [(splitLines bytes).2] := by
  induction bytes with
  | nil => rfl
  | cons b rest ih =>
    obtain ⟨lines, tail, hsplit⟩ : ∃ lines tail, splitLines rest = (lines, tail) := ⟨_, _, rfl⟩
    rw [List.splitOn_cons_eq_if_modifyHead, ih, splitLines, hsplit]
    by_cases hb : b = lineFeed
    · simp [hb]
    · cases lines with
      | nil => simp [hb]
      | cons line lines => simp [hb]

theorem lexFrom_append :
    lexFrom file n (ls ++ ms) = (do
      let here ← lexFrom file n ls
      let more ← lexFrom file (n + ls.length) ms
      .ok (here ++ more)) := by
  induction ls generalizing n with
  | nil =>
    simp only [List.nil_append, List.length_nil, Nat.add_zero, lexFrom]
    cases lexFrom file n ms <;> rfl
  | cons l ls ih =>
    simp only [List.cons_append, lexFrom, ih, List.length_cons]
    rw [show n + 1 + ls.length = n + (ls.length + 1) by omega]
    cases lexLine file n 0 l with
    | error f => rfl
    | ok here =>
      cases lexFrom file (n + 1) ls with
      | error f => rfl
      | ok more =>
        cases lexFrom file (n + (ls.length + 1)) ms with
        | error f => rfl
        | ok last => simp [bind, Except.bind]

theorem lexLines_fst (file : String) (count : Nat) (lines : List Text.Bytes) :
    (lexLines file count lines).1 = lexFrom file (count + 1) (lines.map decodeLine) := by
  induction lines generalizing count with
  | nil => rfl
  | cons line lines ih =>
    rw [List.map_cons, lexLines, lexFrom, ← ih, lexBytes, ← decodeLine]
    cases lexLine file (count + 1) 0 (decodeLine line) with
    | error f => rfl
    | ok here =>
      obtain ⟨result, left, hlines⟩ :
        ∃ result left, lexLines file (count + 1) lines = (result, left) := ⟨_, _, rfl⟩
      rw [hlines]
      cases result <;> rfl

theorem lexLines_count (h : lexLines file count lines = (.ok ts, n, left)) :
    n = count + lines.length := by
  induction lines generalizing count ts with
  | nil =>
    cases h
    rfl
  | cons line lines ih =>
    rw [lexLines] at h
    split at h
    · cases h
    split at h
    next hmore =>
      cases h
      rw [ih hmore, List.length_cons]
      omega
    · cases h

/-- The tokens of a source that can be read to its end are those of its lines. -/
theorem tokenize_eq (file : String) (bytes : Text.Bytes) :
    tokenize file ⟨bytes, none⟩ = lexFrom file 1 (sourceLines bytes) := by
  obtain ⟨lines, tail, hsplit⟩ : ∃ lines tail, splitLines bytes = (lines, tail) := ⟨_, _, rfl⟩
  have hfst := lexLines_fst file 0 lines
  rw [sourceLines, splitOn_eq, hsplit, List.map_append, lexFrom_append, ← hfst, tokenize, ofSource,
    hsplit, List.length_map]
  obtain ⟨result, n, left, hlines⟩ :
    ∃ result n left, lexLines file 0 lines = (result, n, left) := ⟨_, _, _, rfl⟩
  rw [tokens, hlines]
  cases result with
  | error f => rfl
  | ok here =>
    have hcount := lexLines_count hlines
    have htail : lexFrom file (1 + lines.length) [decodeLine tail] =
        (lexBytes file (n + 1) tail).map (· ++ []) := by
      rw [lexFrom, hcount, lexBytes, ← decodeLine, show 0 + lines.length + 1 = 1 + lines.length by
        omega]
      cases lexLine file (1 + lines.length) 0 (decodeLine tail) <;> rfl
    simp only [List.map_cons, List.map_nil, htail]
    by_cases hempty : tail = []
    · subst hempty
      have hnil : lexBytes file (n + 1) [] = .ok [] := by
        rw [lexBytes, show Text.decode (dropCarriageReturn []) = [] from rfl, lexLine]
      simp [hnil, bind, Except.bind, Except.map]
    · simp only [hempty, if_false]
      cases lexBytes file (n + 1) tail <;> simp [bind, Except.bind, Except.map]

def tokensOfLines (file : String) : (line : Nat) → List (List Fragment) → List Token
  | _, [] => []
  | line, fs :: rest => tokensOn file line 0 fs ++ tokensOfLines file (line + 1) rest

theorem lexFrom_iff :
    lexFrom file n ls = .ok ts ↔
      ∃ cuts, List.Forall₂ Cutting ls cuts ∧ ts = tokensOfLines file n cuts := by
  induction ls generalizing n ts with
  | nil => simp [lexFrom, tokensOfLines, eq_comm]
  | cons l ls ih =>
    simp only [lexFrom, List.forall₂_cons_left_iff]
    constructor
    · intro h
      cases hl : lexLine file n 0 l with
      | error f =>
        rw [hl] at h
        cases h
      | ok here =>
        cases hls : lexFrom file (n + 1) ls with
        | error f =>
          rw [hl, hls] at h
          cases h
        | ok more =>
          rw [hl, hls] at h
          cases h
          obtain ⟨fs, hfs, rfl⟩ := lexLine_iff.mp hl
          obtain ⟨cuts, hcuts, rfl⟩ := ih.mp hls
          exact ⟨fs :: cuts, ⟨fs, cuts, hfs, hcuts, rfl⟩, rfl⟩
    · rintro ⟨_, ⟨fs, cuts, hfs, hcuts, rfl⟩, rfl⟩
      have hl : lexLine file n 0 l = .ok _ := lexLine_iff.mpr ⟨fs, hfs, rfl⟩
      have hls : lexFrom file (n + 1) ls = .ok _ := ih.mpr ⟨cuts, hcuts, rfl⟩
      rw [hl, hls]
      rfl

theorem lexFrom_error (h : lexFrom file n ls = .error f) :
    ∃ before line after, ls = before ++ line :: after ∧ (∀ l ∈ before, ∃ fs, Cutting l fs) ∧
      lexLine file (n + before.length) 0 line = .error f := by
  induction ls generalizing n with
  | nil => cases h
  | cons l ls ih =>
    rw [lexFrom] at h
    cases hl : lexLine file n 0 l with
    | error g =>
      rw [hl] at h
      cases h
      exact ⟨[], l, ls, rfl, by simp, hl⟩
    | ok here =>
      cases hls : lexFrom file (n + 1) ls with
      | ok more =>
        rw [hl, hls] at h
        cases h
      | error g =>
        rw [hl, hls] at h
        cases h
        obtain ⟨before, line, after, rfl, hbefore, hline⟩ := ih hls
        obtain ⟨fs, hfs, -⟩ := lexLine_iff.mp hl
        refine ⟨l :: before, line, after, rfl, List.forall_mem_cons.mpr ⟨⟨fs, hfs⟩, hbefore⟩, ?_⟩
        rwa [List.length_cons, show n + (before.length + 1) = n + 1 + before.length by omega]

theorem noFeed_of_sourceLine (h : line ∈ sourceLines bytes) : '\n' ∉ line := by
  obtain ⟨bs, hbs, rfl⟩ := List.mem_map.mp h
  obtain ⟨hlines, htail⟩ := splitLines_noFeed bytes
  intro hc
  have hfeed : lineFeed ∈ bs :=
    mem_of_mem_dropCarriageReturn (Text.mem_of_mem_decodeFrom hc (by decide))
  rw [splitOn_eq, List.mem_append, List.mem_singleton] at hbs
  rcases hbs with hbs | rfl
  · exact hlines bs hbs hfeed
  · exact htail hfeed

theorem encode_concat (cs : List Char) (c : Char) :
    Text.encode (cs ++ [c]) = Text.encode cs ++ Text.encode [c] :=
  List.flatMap_append

theorem return_of_getLast? (h : (Text.encode (cs ++ [c])).getLast? = some carriageReturn) :
    c = '\r' := by
  have hne : Text.encode [c] ≠ [] := by
    simp [Text.encode, String.utf8EncodeChar_ne_nil]
  rw [encode_concat, List.getLast?_append_of_ne_nil _ hne] at h
  have hmem := Text.mem_of_mem_encode (List.mem_of_getLast? h) (by decide)
  exact (List.mem_singleton.mp hmem).symm

/-- Written and read again, a line loses at most a carriage return at its end. -/
theorem decodeLine_encode (cs : List Char) :
    decodeLine (Text.encode cs) = cs ∨ cs = decodeLine (Text.encode cs) ++ ['\r'] := by
  unfold decodeLine dropCarriageReturn
  split
  next hlast =>
    rcases List.eq_nil_or_concat cs with rfl | ⟨ds, c, rfl⟩
    · cases hlast
    · rw [List.concat_eq_append] at hlast ⊢
      obtain rfl := return_of_getLast? hlast
      right
      rw [encode_concat, show Text.encode ['\r'] = [carriageReturn] from rfl, List.dropLast_concat,
        Text.decode_encode]
  · exact .inl (Text.decode_encode cs)

theorem tokenize_of_cutting (h : Cutting cs fs) (hfeed : '\n' ∉ cs) :
    ∃ ts, tokenize file ⟨Text.encode cs, none⟩ = .ok ts := by
  have hlines : sourceLines (Text.encode cs) = [decodeLine (Text.encode cs)] := by
    have hmem : lineFeed ∉ Text.encode cs := fun hb => hfeed (Text.mem_of_mem_encode hb (by decide))
    rw [sourceLines, List.splitOn_eq_singleton hmem, List.map_singleton]
  have hcut : ∃ gs, Cutting (decodeLine (Text.encode cs)) gs := by
    rcases decodeLine_encode cs with heq | heq
    · exact ⟨fs, heq.symm ▸ h⟩
    · rw [heq] at h
      obtain ⟨gs, hgs, -⟩ := h.dropReturn
      exact ⟨gs, hgs⟩
  obtain ⟨gs, hgs⟩ := hcut
  refine ⟨tokensOfLines file 1 [gs], ?_⟩
  rw [tokenize_eq, hlines]
  exact lexFrom_iff.mpr ⟨[gs], .cons hgs .nil, rfl⟩

end LineReader

open Lexer LineReader

/-- A source that can be read to its end has tokens if and only if each of its lines has a cutting,
and they are the fragments of the cuttings that are not blank. A line has one cutting at most, and
the text of a fragment gives its kind. Otherwise the first line without a cutting is at fault, at
a place before which the line can be read. -/
theorem tokenize_decides_cutting (file : String) (bytes : Text.Bytes) :
    (∀ ts, tokenize file ⟨bytes, none⟩ = .ok ts ↔
      ∃ cuts, List.Forall₂ Cutting (sourceLines bytes) cuts ∧ ts = tokensOfLines file 1 cuts) ∧
    (∀ line fs gs, Cutting line fs → Cutting line gs → fs = gs) ∧
    (∀ k k' text, Lexical k text → Lexical k' text → k = k') ∧
    ∀ f, tokenize file ⟨bytes, none⟩ = .error f →
      ∃ before line after, ∃ column : Nat, sourceLines bytes = before ++ line :: after ∧
        (∀ l ∈ before, ∃ fs, Cutting l fs) ∧ (¬ ∃ fs, Cutting line fs) ∧
        f.location = ⟨before.length + 1, column + 1, file⟩ ∧ column < line.length ∧
        ∃ ts, tokenize file ⟨Text.encode (line.take column), none⟩ = .ok ts := by
  refine ⟨fun ts => ?_, fun _ _ _ h h' => h.unique h', fun _ _ _ h h' => h.kind_unique h', ?_⟩
  · rw [tokenize_eq, lexFrom_iff]
  · intro f hf
    rw [tokenize_eq] at hf
    obtain ⟨before, line, after, hlines, hbefore, hline⟩ := lexFrom_error hf
    obtain ⟨front, c, rest, fs, rfl, hfront, hloc⟩ := lexLine_error hline
    refine ⟨before, front ++ c :: rest, after, front.length, hlines, hbefore, ?_, ?_, ?_, ?_⟩
    · rintro ⟨gs, hgs⟩
      have hok : lexLine file (1 + before.length) 0 (front ++ c :: rest) =
          .ok (tokensOn file (1 + before.length) 0 gs) := lexLine_iff.mpr ⟨gs, hgs, rfl⟩
      rw [hline] at hok
      cases hok
    · rw [hloc]
      congr 1 <;> omega
    · simp
    · rw [List.take_left]
      have hmem : front ++ c :: rest ∈ sourceLines bytes := by
        rw [hlines]
        simp
      have hfeed := noFeed_of_sourceLine hmem
      exact tokenize_of_cutting hfront fun h => hfeed (List.mem_append_left _ h)

def glued : Text.Bytes := Text.bytesOf "if(x>=12)y:==\r\n\"a b\"_1\n"

def gluedTokens : List Token :=
  [⟨.keyword, "if", ⟨1, 1, ""⟩⟩, ⟨.delimiter, "(", ⟨1, 3, ""⟩⟩, ⟨.ident, "x", ⟨1, 4, ""⟩⟩,
   ⟨.operator, ">=", ⟨1, 5, ""⟩⟩, ⟨.int, "12", ⟨1, 7, ""⟩⟩, ⟨.delimiter, ")", ⟨1, 9, ""⟩⟩,
   ⟨.ident, "y", ⟨1, 10, ""⟩⟩, ⟨.operator, ":=", ⟨1, 11, ""⟩⟩, ⟨.operator, "=", ⟨1, 13, ""⟩⟩,
   ⟨.string, "\"a b\"", ⟨2, 1, ""⟩⟩, ⟨.ident, "_1", ⟨2, 6, ""⟩⟩]

def overlong : Text.Bytes := Text.bytesOf "x\n<=="

theorem tokenize_decides_cutting_glued :
    tokenize "" ⟨glued, none⟩ = .ok gluedTokens ∧
      (∃ cuts, List.Forall₂ Cutting (sourceLines glued) cuts ∧
        gluedTokens = tokensOfLines "" 1 cuts) ∧
      tokenize "" ⟨overlong, none⟩ = .error ⟨.invalidOperator "<=", ⟨2, 1, ""⟩⟩ ∧
      ∃ before line after, sourceLines overlong = before ++ line :: after ∧
        ¬ ∃ fs, Cutting line fs := by
  have herror : tokenize "" ⟨overlong, none⟩ = .error ⟨.invalidOperator "<=", ⟨2, 1, ""⟩⟩ := by cbv
  have hok : tokenize "" ⟨glued, none⟩ = .ok gluedTokens := by cbv
  obtain ⟨before, line, after, _, hlines, _, hline, _⟩ :=
    (tokenize_decides_cutting "" overlong).2.2.2 _ herror
  exact ⟨hok, ((tokenize_decides_cutting "" glued).1 gluedTokens).mp hok, herror,
    before, line, after, hlines, hline⟩

end SplatLang
