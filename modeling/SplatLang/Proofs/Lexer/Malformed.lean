import SplatLang.Proofs.Lexer.LineByLine

/-!
# Malformed text

Source text need not be valid UTF-8. How it is read is said by a rule that knows only how
characters are written: where the bytes of a character stand they are read as it, and any other
byte is read by itself, as a replacement. A byte below 128 is never part of anything else, so line
ends and carriage returns are found alike before and after a text is repaired, and lexing a text is
lexing it as it is repaired. Which bytes were replaced cannot be told from the tokens.
-/

namespace SplatLang

namespace Text

/-- How bytes are read. No character is written with the bytes of a surrogate, with more bytes than
it needs, or beyond U+10FFFF, so all these are strays. -/
inductive Decodes : Bytes → List Char → Prop
  | nil : Decodes [] []
  | char : Decodes rest cs → Decodes (String.utf8EncodeChar c ++ rest) (c :: cs)
  /-- A byte with which the bytes of no character begin. -/
  | stray : (∀ c, ¬ String.utf8EncodeChar c <+: b :: rest) → Decodes rest cs →
      Decodes (b :: rest) (replacement :: cs)

def Valid (bytes : Bytes) : Prop := ∃ cs, encode cs = bytes

/-- The text that bytes are read as, written again. -/
def repair (bytes : Bytes) : Bytes := encode (decode bytes)

-- ---------------------------------------------------------------------------
-- The rule of reading
-- ---------------------------------------------------------------------------

theorem byte_of_toNat {b : UInt8} {n : Nat} (h : b.toNat = n) : b = UInt8.ofNat n := by
  rw [← h, UInt8.ofNat_toNat]

theorem toNat_of_trailing {b : UInt8} (h : isTrailing b = true) :
    b.toNat = trailingBits b + 128 ∧ trailingBits b < 64 := by
  simp only [isTrailing, Bool.and_eq_true, decide_eq_true_eq, UInt8.le_iff_toNat_le,
    UInt8.lt_iff_toNat_lt, UInt8.reduceToNat] at h
  unfold trailingBits
  omega

/-- What stands at the front is a character with all its bytes. -/
theorem frontChar?_sound (h : frontChar? bytes = some (c, n)) :
    n = (String.utf8EncodeChar c).length ∧ String.utf8EncodeChar c <+: bytes := by
  have hv : c.val.toNat = c.toNat := rfl
  have hchar {d : Char} {k : Nat} (h : some (d, k) = some (c, n)) : d = c ∧ k = n :=
    Prod.mk.inj (Option.some.inj h)
  unfold String.utf8EncodeChar
  simp only [hv]
  unfold frontChar? at h
  split at h
  · cases h
  next a rest =>
  have ha := a.toNat_lt
  simp only [UInt8.lt_iff_toNat_lt, UInt8.reduceToNat] at h
  split at h
  · obtain ⟨rfl, rfl⟩ := hchar h
    rw [toNat_ofNat (by omega), if_pos (by omega), ← byte_of_toNat rfl]
    exact ⟨rfl, rest, rfl⟩
  split at h
  · cases h
  split at h
  · split at h
    next b more =>
      split at h
      next hb =>
        obtain ⟨hb, hlt⟩ := toNat_of_trailing hb
        obtain ⟨rfl, rfl⟩ := hchar h
        rw [toNat_ofNat (by omega), if_neg (by omega), if_pos (by omega),
          ← byte_of_toNat (b := a) (by omega), ← byte_of_toNat (b := b) (by omega)]
        exact ⟨rfl, more, rfl⟩
      · cases h
    · cases h
  split at h
  · split at h
    next b d more =>
      split at h
      next hn =>
        simp only [Bool.and_eq_true, Bool.or_eq_true, decide_eq_true_eq] at hn
        obtain ⟨hb, hblt⟩ := toNat_of_trailing hn.1.1.1
        obtain ⟨hd, hdlt⟩ := toNat_of_trailing hn.1.1.2
        obtain ⟨rfl, rfl⟩ := hchar h
        rw [toNat_ofNat (by omega), if_neg (by omega), if_neg (by omega), if_pos (by omega),
          ← byte_of_toNat (b := a) (by omega), ← byte_of_toNat (b := b) (by omega),
          ← byte_of_toNat (b := d) (by omega)]
        exact ⟨rfl, more, rfl⟩
      · cases h
    · cases h
  · split at h
    next b d e more =>
      split at h
      next hn =>
        simp only [Bool.and_eq_true, decide_eq_true_eq] at hn
        obtain ⟨hb, hblt⟩ := toNat_of_trailing hn.1.1.1.1
        obtain ⟨hd, hdlt⟩ := toNat_of_trailing hn.1.1.1.2
        obtain ⟨he, helt⟩ := toNat_of_trailing hn.1.1.2
        obtain ⟨rfl, rfl⟩ := hchar h
        rw [toNat_ofNat (by omega), if_neg (by omega), if_neg (by omega), if_neg (by omega),
          ← byte_of_toNat (b := a) (by omega), ← byte_of_toNat (b := b) (by omega),
          ← byte_of_toNat (b := d) (by omega), ← byte_of_toNat (b := e) (by omega)]
        exact ⟨rfl, more, rfl⟩
      · cases h
    · cases h

theorem decode_stray (h : frontChar? (b :: rest) = none) :
    decode (b :: rest) = replacement :: decode rest := by
  rw [decode, decodeFrom, h]
  rfl

theorem decode_decodes (bytes : Bytes) : Decodes bytes (decode bytes) := by
  induction hlen : bytes.length using Nat.strong_induction_on generalizing bytes with
  | _ n ih =>
    cases hfront : frontChar? bytes with
    | some front =>
      obtain ⟨c, width⟩ := front
      obtain ⟨-, more, rfl⟩ := frontChar?_sound hfront
      have hpos := List.length_pos_iff.mpr (String.utf8EncodeChar_ne_nil (c := c))
      rw [List.length_append] at hlen
      rw [decode_encode_append]
      exact .char (ih more.length (by omega) more rfl)
    | none =>
      cases bytes with
      | nil => exact .nil
      | cons b rest =>
        rw [decode_stray hfront]
        refine .stray ?_ (ih rest.length (by simp [← hlen]) rest rfl)
        rintro c ⟨more, hmore⟩
        rw [← hmore, frontChar?_encode] at hfront
        cases hfront

/-- The rule leaves no choice. -/
theorem decodes_iff : Decodes bytes cs ↔ cs = decode bytes := by
  constructor
  · intro h
    induction h with
    | nil => rfl
    | char _ ih => rw [decode_encode_append, ih]
    | @stray b rest cs hstray _ ih =>
      cases hfront : frontChar? (b :: rest) with
      | none => rw [decode_stray hfront, ih]
      | some front => exact absurd (frontChar?_sound hfront).2 (hstray front.1)
  · rintro rfl
    exact decode_decodes bytes

-- ---------------------------------------------------------------------------
-- Bytes below 128 part a text
-- ---------------------------------------------------------------------------

theorem frontChar?_append (hx : x.toNat < 128) (b : UInt8) (bs rest : Bytes) :
    frontChar? (b :: bs ++ x :: rest) = frontChar? (b :: bs) := by
  have hx' : isTrailing x = false := by
    simp only [isTrailing, Bool.and_eq_false_iff, decide_eq_false_iff_not, UInt8.not_le,
      UInt8.lt_iff_toNat_lt, UInt8.reduceToNat]
    exact .inl hx
  rcases bs with _ | ⟨c, _ | ⟨d, _ | ⟨e, bs⟩⟩⟩
  · rcases rest with _ | ⟨r, _ | ⟨s, rest⟩⟩ <;> simp [frontChar?, hx']
  · rcases rest with _ | ⟨r, rest⟩ <;> simp [frontChar?, hx']
  · simp [frontChar?, hx']
  · rfl

theorem decodeFrom_append (hx : x.toNat < 128) (rest : Bytes) (h : skip ≤ bs.length) :
    decodeFrom skip (bs ++ x :: rest) =
      decodeFrom skip bs ++ Char.ofNat x.toNat :: decode rest := by
  induction bs generalizing skip with
  | nil =>
    obtain rfl := Nat.le_zero.mp h
    have hfront : frontChar? (x :: rest) = some (Char.ofNat x.toNat, 1) :=
      if_pos (UInt8.lt_iff_toNat_lt.mpr hx)
    rw [List.nil_append, decodeFrom, decodeFrom]
    simp only [hfront]
    rfl
  | cons b bs ih =>
    cases skip with
    | succ skip => exact ih (Nat.le_of_succ_le_succ h)
    | zero =>
      rw [List.cons_append, decodeFrom, decodeFrom, ← List.cons_append, frontChar?_append hx]
      cases hfront : frontChar? (b :: bs) with
      | none => exact congrArg (replacement :: ·) (ih (Nat.zero_le _))
      | some front =>
        obtain ⟨hwidth, hpre⟩ := frontChar?_sound hfront
        have hle : front.2 ≤ (b :: bs).length := hwidth ▸ hpre.length_le
        exact congrArg (front.1 :: ·) (ih (Nat.sub_le_of_le_add hle))

theorem decode_append (hx : x.toNat < 128) (front rest : Bytes) :
    decode (front ++ x :: rest) = decode front ++ Char.ofNat x.toNat :: decode rest :=
  decodeFrom_append hx rest (Nat.zero_le _)

theorem encode_ascii (hx : x.toNat < 128) : encode [Char.ofNat x.toNat] = [x] := by
  have hv : (Char.ofNat x.toNat).val.toNat = x.toNat := toNat_ofNat (by omega)
  show String.utf8EncodeChar _ ++ [] = _
  rw [String.utf8EncodeChar, hv, List.append_nil]
  exact (if_pos (by omega)).trans (congrArg ([·]) UInt8.ofNat_toNat)

theorem repair_append (hx : x.toNat < 128) (bs rest : Bytes) :
    repair (bs ++ x :: rest) = repair bs ++ x :: repair rest := by
  rw [repair, decode_append hx, List.append_cons, encode_append, encode_append, encode_ascii hx,
    List.append_assoc]
  rfl

theorem decode_repair (bytes : Bytes) : decode (repair bytes) = decode bytes :=
  decode_encode _

theorem mem_of_mem_repair (hx : x.toNat < 128) (h : x ∈ repair bytes) : x ∈ bytes := by
  have hchar := mem_of_mem_encode h hx
  have hnat : (Char.ofNat x.toNat).toNat = x.toNat := toNat_ofNat (by omega)
  have hmem := mem_of_mem_decodeFrom hchar (by omega)
  rwa [hnat, UInt8.ofNat_toNat] at hmem

theorem repair_ne_nil (h : bytes ≠ []) : repair bytes ≠ [] := by
  intro hnil
  have hdecode := decode_repair bytes
  rw [hnil] at hdecode
  have hdecodes := decode_decodes bytes
  rw [← hdecode] at hdecodes
  cases hdecodes
  exact h rfl

/-- A byte below 128 that the repaired text ends in was the last one before. -/
theorem getLast?_of_repair (hx : x.toNat < 128) (h : (repair bytes).getLast? = some x) :
    bytes.getLast? = some x := by
  induction hlen : bytes.length using Nat.strong_induction_on generalizing bytes with
  | _ n ih =>
    have hmem := mem_of_mem_repair hx (List.mem_of_getLast? h)
    obtain ⟨front, rest, rfl⟩ := List.append_of_mem hmem
    rw [repair_append hx, List.getLast?_append_cons] at h
    rw [List.getLast?_append_cons]
    by_cases hrest : rest = []
    · rw [hrest]
      rfl
    · rw [List.getLast?_cons_of_ne_nil (repair_ne_nil hrest)] at h
      rw [List.getLast?_cons_of_ne_nil hrest]
      rw [List.length_append, List.length_cons] at hlen
      exact ih rest.length (by omega) h rfl

end Text

namespace LineReader

open Lexer Text

variable {file : String} {failure : Option String}

theorem repair_lines (ls : List Bytes) (tail : Bytes) :
    repair (ls.flatMap (· ++ [lineFeed]) ++ tail) =
      (ls.map repair).flatMap (· ++ [lineFeed]) ++ repair tail := by
  induction ls with
  | nil => rfl
  | cons l ls ih =>
    rw [List.map_cons, List.flatMap_cons, List.flatMap_cons, List.append_assoc, List.append_assoc,
      List.singleton_append, repair_append (by decide), ih, List.append_assoc, List.append_assoc,
      List.singleton_append]

theorem splitLines_repair (text : Bytes) :
    splitLines (repair text) = ((splitLines text).1.map repair, repair (splitLines text).2) := by
  obtain ⟨hlines, htail⟩ := splitLines_noFeed text
  have hclean {l : Bytes} (h : lineFeed ∉ l) : lineFeed ∉ repair l :=
    fun hmem => h (mem_of_mem_repair (by decide) hmem)
  conv => lhs; rw [← join_splitLines text, repair_lines]
  rw [splitLines_lines (List.forall_mem_map.mpr fun l hl => hclean (hlines l hl)),
    splitLines_open (hclean htail), List.append_nil]

/-- A carriage return at the end of a line is there after the repair as before. -/
theorem decodeLine_repair (line : Bytes) : decodeLine (repair line) = decodeLine line := by
  unfold decodeLine dropCarriageReturn
  by_cases hlast : line.getLast? = some carriageReturn
  · obtain ⟨front, rfl⟩ := List.getLast?_eq_some_iff.mp hlast
    have hrepair : repair (front ++ [carriageReturn]) = repair front ++ [carriageReturn] :=
      repair_append (by decide) front []
    rw [hrepair, if_pos (by simp), if_pos hlast, List.dropLast_concat, List.dropLast_concat,
      decode_repair]
  · rw [if_neg fun h => hlast (getLast?_of_repair (by decide) h), if_neg hlast, decode_repair]

theorem tokenize_repair (file : String) (text : Bytes) (failure : Option String) :
    tokenize file ⟨repair text, failure⟩ = tokenize file ⟨text, failure⟩ := by
  have hlines (ls : List Bytes) : (ls.map repair).map decodeLine = ls.map decodeLine := by
    rw [List.map_map]
    exact List.map_congr_left fun l _ => decodeLine_repair l
  have hrest (n : Nat) (tail : Bytes) :
      lexRest file n (repair tail) failure = lexRest file n tail failure := by
    cases failure with
    | some reason => rfl
    | none => exact congrArg (lexLine file (n + 1) 0) (decodeLine_repair tail)
  simp only [tokenize, tokens_fst, ofSource, splitLines_repair, hlines, hrest, List.length_map]

-- ---------------------------------------------------------------------------
-- Where the texts of tokens stand
-- ---------------------------------------------------------------------------

theorem infix_of_mem_tokensOn (h : Cutting cs fs) (ht : t ∈ tokensOn file n offset fs) :
    t.value.toList <:+: cs := by
  induction h generalizing offset with
  | nil => cases ht
  | @cons k text rest fs _ _ _ ih =>
    rw [tokensOn, List.mem_append] at ht
    rcases ht with ht | ht
    · cases k with
      | none => cases ht
      | some k =>
        rw [List.mem_singleton.mp ht, String.toList_ofList]
        exact (List.prefix_append text rest).isInfix
    · exact (ih ht).trans (List.suffix_append text rest).isInfix

theorem infix_of_mem_tokensOfLines (h : List.Forall₂ Cutting ls cuts)
    (ht : t ∈ tokensOfLines file n cuts) : ∃ line ∈ ls, t.value.toList <:+: line := by
  induction h generalizing n with
  | nil => cases ht
  | cons hline _ ih =>
    rw [tokensOfLines, List.mem_append] at ht
    rcases ht with ht | ht
    · exact ⟨_, List.mem_cons_self, infix_of_mem_tokensOn hline ht⟩
    · obtain ⟨line, hmem, hin⟩ := ih ht
      exact ⟨line, List.mem_cons_of_mem _ hmem, hin⟩

theorem encode_within (h : cs <:+: ds) : encode cs <:+: encode ds := by
  obtain ⟨before, after, rfl⟩ := h
  refine ⟨encode before, encode after, ?_⟩
  simp only [encode, List.flatMap_append]

theorem decodeLine_begins (line : Bytes) : encode (decodeLine line) <+: repair line := by
  unfold decodeLine dropCarriageReturn
  split
  next hlast =>
    obtain ⟨front, rfl⟩ := List.getLast?_eq_some_iff.mp hlast
    rw [List.dropLast_concat, repair_append (by decide) front []]
    exact List.prefix_append _ _
  · exact List.prefix_rfl

theorem sourceLine_within (h : line ∈ sourceLines text) : encode line <:+: repair text := by
  obtain ⟨bs, hbs, rfl⟩ := List.mem_map.mp h
  refine (decodeLine_begins bs).isInfix.trans ?_
  rw [← join_splitLines text, repair_lines]
  rw [splitOn_eq, List.mem_append, List.mem_singleton] at hbs
  rcases hbs with hbs | rfl
  · obtain ⟨before, after, hlines⟩ := List.append_of_mem hbs
    rw [hlines]
    refine ⟨(before.map repair).flatMap (· ++ [lineFeed]),
      lineFeed :: (after.map repair).flatMap (· ++ [lineFeed]) ++ repair (splitLines text).2, ?_⟩
    simp [List.append_assoc]
  · exact (List.suffix_append _ _).isInfix

/-- The text of a token stands in the repaired text. -/
theorem value_within (h : tokenize file ⟨text, failure⟩ = .ok ts) (ht : t ∈ ts) :
    bytesOf t.value <:+: repair text := by
  cases failure with
  | some reason =>
    rw [tokenize_failing] at h
    cases hlines : tokenize file ⟨completeLines text, none⟩ <;> rw [hlines] at h <;> cases h
  | none =>
    rw [tokenize_eq] at h
    obtain ⟨cuts, hcuts, rfl⟩ := lexFrom_iff.mp h
    obtain ⟨line, hline, hin⟩ := infix_of_mem_tokensOfLines hcuts ht
    exact (encode_within hin).trans (sourceLine_within hline)

end LineReader

open Text LineReader

/-- Malformed text is lexed as its repaired text. The rule of reading gives just one list of
characters for any bytes; written again, they are a text with the same tokens, or the same fault,
in every detail. What a token holds is valid and stands in the repaired text, and what a fault says
is valid as well. -/
theorem malformed_text_repaired (file : String) (src : Bytes) (failure : Option String) :
    (∀ cs, Decodes src cs ↔ encode cs = repair src) ∧
    tokenize file ⟨repair src, failure⟩ = tokenize file ⟨src, failure⟩ ∧
    (∀ ts, tokenize file ⟨src, failure⟩ = .ok ts → ∀ t ∈ ts,
      Valid (bytesOf t.value) ∧ bytesOf t.value <:+: repair src) ∧
    ∀ f, tokenize file ⟨src, failure⟩ = .error f → Valid (bytesOf f.report.message) := by
  refine ⟨fun cs => ?_, tokenize_repair file src failure, fun ts h t ht => ?_, fun f _ => ⟨_, rfl⟩⟩
  · rw [decodes_iff]
    constructor
    · rintro rfl
      rfl
    · intro h
      rw [← decode_encode cs, h, decode_repair]
  · exact ⟨⟨_, rfl⟩, value_within h ht⟩

def broken : Bytes := [0x22, 0xED, 0xA0, 0x80, 0xE2, 0x82, 0x22, carriageReturn, lineFeed]

theorem tokenize_broken :
    tokenize "" ⟨broken, none⟩ =
      .ok [⟨.string, "\"\uFFFD\uFFFD\uFFFD\uFFFD\uFFFD\"", ⟨1, 1, ""⟩⟩] := by
  have hlines : sourceLines broken =
      ['"' :: (List.replicate 5 replacement ++ ['"']) ++ [], []] := by decide +kernel
  rw [tokenize_eq, hlines]
  have hstring : Lexer.Cutting ('"' :: (List.replicate 5 replacement ++ ['"']) ++ []) _ :=
    .cons (.string (by simp [replacement])) ⟨by simp, by simp⟩ .nil
  exact lexFrom_iff.mpr ⟨_, .cons hstring (.cons .nil .nil), rfl⟩

theorem malformed_text_repaired_broken :
    repair broken = bytesOf "\"\uFFFD\uFFFD\uFFFD\uFFFD\uFFFD\"\r\n" ∧
    tokenize "" ⟨repair broken, none⟩ =
      .ok [⟨.string, "\"\uFFFD\uFFFD\uFFFD\uFFFD\uFFFD\"", ⟨1, 1, ""⟩⟩] :=
  ⟨by decide +kernel, (malformed_text_repaired "" broken none).2.1.trans tokenize_broken⟩

end SplatLang
