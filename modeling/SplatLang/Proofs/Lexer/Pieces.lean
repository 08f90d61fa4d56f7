import SplatLang.Proofs.Lexer.Shape

/-!
# Pieces of a line

The texts that a line may be cut into, and what may not stand behind each of them, said without a
lexer. That the lexer takes the longest piece that fits shows in what a piece may not be followed
by: the lexer cuts a piece off the front of a line exactly where the line begins with one.
-/

namespace SplatLang

-- ---------------------------------------------------------------------------
-- Classes of characters
-- ---------------------------------------------------------------------------

namespace Text

theorem range_of_has {rs : CodePoints} (h : rs.has n = true) : ∃ r ∈ rs, r.1 ≤ n ∧ n ≤ r.2 := by
  induction rs with
  | nil => simp [CodePoints.has] at h
  | cons r rs ih =>
    unfold CodePoints.has at h
    split at h
    · simp at h
    next hlo =>
      rcases Bool.or_eq_true_iff.mp h with hhi | hrest
      · exact ⟨r, List.mem_cons_self, Nat.le_of_not_lt hlo, by simpa using hhi⟩
      · obtain ⟨s, hs, hmem⟩ := ih hrest
        exact ⟨s, List.mem_cons_of_mem _ hs, hmem⟩

def CodePoints.apart (rs ss : CodePoints) : Bool :=
  rs.all fun r => ss.all fun s => r.2 < s.1 || s.2 < r.1

theorem not_has_of_apart {rs ss : CodePoints} (h : rs.apart ss = true) (hr : rs.has n = true) :
    ss.has n = false := by
  rw [Bool.eq_false_iff]
  intro hs
  obtain ⟨r, hr, hrlo, hrhi⟩ := range_of_has hr
  obtain ⟨s, hs, hslo, hshi⟩ := range_of_has hs
  have hapart := List.all_eq_true.mp (List.all_eq_true.mp h r hr) s hs
  simp only [Bool.or_eq_true, decide_eq_true_eq] at hapart
  omega

theorem not_letter_of_blank (h : isBlank c = true) : isLetter c = false :=
  not_has_of_apart (by decide +kernel) h

theorem not_digit_of_blank (h : isBlank c = true) : isDecimalDigit c = false :=
  not_has_of_apart (by decide +kernel) h

theorem digit_range {c : Char} (h : c.isDigit = true) :
    CodePoints.has [(0x30, 0x39)] c.toNat = true := by
  simp only [Char.isDigit, Bool.and_eq_true, decide_eq_true_eq, ge_iff_le, UInt32.le_iff_toNat_le]
    at h
  have hlo : 0x30 ≤ c.toNat := h.1
  have hhi : c.toNat ≤ 0x39 := h.2
  simp [CodePoints.has, Nat.not_lt.mpr hlo, hhi]

theorem digit_not_letter {c : Char} (h : c.isDigit = true) : isLetter c = false :=
  @not_has_of_apart _ [(0x30, 0x39)] _ (by decide +kernel) (digit_range h)

end Text

namespace Lexer

open Text

theorem digit_is_name {c : Char} (h : c.isDigit = true) : isNameChar c = true := by
  have hrange := digit_range h
  have hdigit : isDecimalDigit c = true := by
    rw [isDecimalDigit, decimalDigits, CodePoints.has]
    simp only [CodePoints.has, Bool.or_false] at hrange
    split at hrange
    · simp at hrange
    next hlo => rw [if_neg hlo, hrange, Bool.true_or]
  simp [isNameChar, hdigit]

theorem not_blank_of_name (h : isNameChar c = true) : isBlank c = false := by
  rw [Bool.eq_false_iff]
  intro hb
  have hu : c ≠ '_' := by
    rintro rfl
    exact absurd hb (by decide)
  simp [isNameChar, not_letter_of_blank hb, not_digit_of_blank hb, hu] at h

theorem clean_of_name (h : isNameChar c = true) : c ≠ '\n' ∧ c ≠ '\r' := by
  refine ⟨?_, ?_⟩ <;> (rintro rfl; exact absurd h (by decide))

theorem plain_of_symbol (h : symbolKind? c = some k) :
    isBlank c = false ∧ c ≠ '"' ∧ isNameChar c = false := by
  have hall : ['+', '-', '*', '/', '%', '=', '<', '>', '(', ')', ';', ',', ':'].all
      (fun c => ! isBlank c && c ≠ '"' && ! isNameChar c) = true := by decide
  have hmem : c ∈ ['+', '-', '*', '/', '%', '=', '<', '>'] ++ ['(', ')', ';', ',', ':'] := by
    unfold symbolKind? at h
    split at h
    next hc => exact List.mem_append_left _ (List.contains_iff_mem.mp hc)
    split at h
    next hc => exact List.mem_append_right _ (List.contains_iff_mem.mp hc)
    · simp at h
  simpa [and_assoc] using List.all_eq_true.mp hall c hmem

theorem symbol_of_joins (h : joinsEquals c = true) : ∃ k, symbolKind? c = some k := by
  have hall : ['=', '<', '>', ':'].all (fun c => (symbolKind? c).isSome) = true := by decide
  exact Option.isSome_iff_exists.mp (List.all_eq_true.mp hall c (List.contains_iff_mem.mp h))

theorem noReturn_of_shape (h : Shape k cs) : '\r' ∉ cs := by
  cases h with
  | string inside =>
    intro hc
    simp only [List.mem_cons, List.mem_append, List.not_mem_nil, or_false] at hc
    rcases hc with hc | hc | hc
    · exact absurd hc (by decide)
    · exact absurd (inside _ hc) (by decide)
    · exact absurd hc (by decide)
  | word name => exact fun hc => (clean_of_name (name _ hc)).2 rfl
  | symbol kind =>
    intro hc
    rw [← List.mem_singleton.mp hc] at kind
    exact absurd (plain_of_symbol kind).1 (by decide)
  | pair joins =>
    intro hc
    simp only [List.mem_cons, List.not_mem_nil, or_false] at hc
    rcases hc with rfl | hc
    · exact absurd joins (by decide)
    · exact absurd hc (by decide)

-- ---------------------------------------------------------------------------
-- Pieces
-- ---------------------------------------------------------------------------

/-- What a line may be cut into, with the kind of the token that it makes. A blank makes none. -/
inductive Lexical : Option TokenKind → List Char → Prop
  | blank (blank : isBlank c = true) : Lexical none [c]
  | number (digits : ∀ d ∈ c :: cs, d.isDigit = true) : Lexical (some .int) (c :: cs)
  | keyword (run : ∀ d ∈ c :: cs, isNameChar d = true)
      (reserved : String.ofList (c :: cs) ∈ keywords) : Lexical (some .keyword) (c :: cs)
  | name (run : ∀ d ∈ c :: cs, isNameChar d = true) (notNumber : ¬ ∀ d ∈ c :: cs, d.isDigit = true)
      (free : String.ofList (c :: cs) ∉ keywords) : Lexical (some .ident) (c :: cs)
  | string (inside : ∀ c ∈ cs, c ≠ '"' ∧ c ≠ '\\' ∧ c ≠ '\r') :
      Lexical (some .string) ('"' :: (cs ++ ['"']))
  | pair (first : c ∈ ['=', '<', '>', ':']) : Lexical (some .operator) [c, '=']
  | operator (sign : c ∈ ['+', '-', '*', '/', '%', '=', '<', '>']) : Lexical (some .operator) [c]
  | delimiter (sign : c ∈ ['(', ')', ';', ',', ':']) : Lexical (some .delimiter) [c]

def refusesEquals : List (List Char) :=
  [['='], ['<'], ['>'], [':'], ['=', '='], ['<', '='], ['>', '=']]

structure Bounded (text rest : List Char) : Prop where
  run : (∀ c ∈ text, isNameChar c = true) → ∀ d ∈ rest.head?, isNameChar d = false
  equals : text ∈ refusesEquals → rest.head? ≠ some '='

theorem lexical_of_shape (h : Shape k cs) : Lexical (some k) cs := by
  cases h with
  | string inside =>
    refine .string fun c hc => ?_
    simpa [endsString, and_assoc] using inside c hc
  | @word c cs name =>
    rw [wordKind]
    split
    next hdigits => exact .number (List.all_eq_true.mp hdigits)
    next hdigits =>
    split
    next hkey => exact .keyword name (List.contains_iff_mem.mp hkey)
    next hkey =>
      exact .name name (fun h => hdigits (List.all_eq_true.mpr h))
        fun h => hkey (List.contains_iff_mem.mpr h)
  | symbol kind =>
    unfold symbolKind? at kind
    split at kind
    next hc =>
      cases kind
      exact .operator (List.contains_iff_mem.mp hc)
    split at kind
    next hc =>
      cases kind
      exact .delimiter (List.contains_iff_mem.mp hc)
    · cases kind
  | pair joins => exact .pair (List.contains_iff_mem.mp joins)

theorem keyword_not_number (h : String.ofList cs ∈ keywords) : cs.all Char.isDigit = false := by
  have hall : keywords.all (fun w => ! w.toList.all Char.isDigit) = true := by decide
  have hcs := List.all_eq_true.mp hall _ h
  simpa using hcs

theorem symbolKind?_delimiter (h : c ∈ ['(', ')', ';', ',', ':']) :
    symbolKind? c = some .delimiter := by
  have hall : ['(', ')', ';', ',', ':'].all (fun c => symbolKind? c = some .delimiter) = true := by
    decide
  simpa using List.all_eq_true.mp hall c h

theorem shape_of_lexical (h : Lexical (some k) cs) : Shape k cs := by
  cases h with
  | @number c cs digits =>
    have hkind : wordKind (c :: cs) = .int := by rw [wordKind, if_pos (List.all_eq_true.mpr digits)]
    exact hkind ▸ .word fun d hd => digit_is_name (digits d hd)
  | @keyword c cs run reserved =>
    have hkind : wordKind (c :: cs) = .keyword := by
      rw [wordKind, keyword_not_number reserved, isKeyword, List.contains_iff_mem.mpr reserved]
      rfl
    exact hkind ▸ .word run
  | @name c cs run notNumber free =>
    have hkind : wordKind (c :: cs) = .ident := by
      have hdigits : (c :: cs).all Char.isDigit = false :=
        Bool.eq_false_iff.mpr fun h => notNumber (List.all_eq_true.mp h)
      have hkey : isKeyword (String.ofList (c :: cs)) = false := by simpa [isKeyword] using free
      rw [wordKind, hdigits, hkey]
      rfl
    exact hkind ▸ .word run
  | string inside => exact .string fun c hc => by simpa [endsString, and_assoc] using inside c hc
  | pair first => exact .pair (List.contains_iff_mem.mpr first)
  | operator sign => exact .symbol (by rw [symbolKind?, if_pos (List.contains_iff_mem.mpr sign)])
  | delimiter sign => exact .symbol (symbolKind?_delimiter sign)

-- ---------------------------------------------------------------------------
-- The lexer cuts off the piece at the front
-- ---------------------------------------------------------------------------

theorem joins_of_refuses (h : c :: cs ∈ refusesEquals) : joinsEquals c = true := by
  have hall : refusesEquals.all (fun t => t.head?.all joinsEquals) = true := by decide
  simpa using List.all_eq_true.mp hall _ h

theorem bounded_of_plain (hname : isNameChar c = false) (hjoins : joinsEquals c = false) :
    Bounded (c :: cs) rest := by
  refine ⟨fun h => ?_, fun h => ?_⟩
  · simp [h c List.mem_cons_self] at hname
  · simp [joins_of_refuses h] at hjoins

theorem joins_plain (h : joinsEquals c = true) :
    isBlank c = false ∧ c ≠ '"' ∧ isNameChar c = false := by
  obtain ⟨k, hk⟩ := symbol_of_joins h
  exact plain_of_symbol hk

theorem not_joins_of_name (h : isNameChar c = true) : joinsEquals c = false := by
  rw [Bool.eq_false_iff]
  intro hj
  simp [(joins_plain hj).2.2] at h

theorem cutString_bounded (h : cutString cs = .ok p) : Bounded p.text p.rest := by
  unfold cutString at h
  split at h
  · simp at h
  split at h
  · simp only [Except.ok.injEq] at h
    subst h
    exact bounded_of_plain (by decide) (by decide)
  · simp at h

theorem cutWord_bounded (hc : isNameChar c = true) :
    Bounded (cutWord c cs).text (cutWord c cs).rest := by
  refine ⟨fun _ d hd => ?_, fun h => ?_⟩
  · have hstop := List.head?_dropWhile_not isNameChar cs
    rw [cutWord, Option.mem_def] at hd
    rw [hd] at hstop
    simpa using hstop
  · have hjoins := joins_of_refuses h
    simp [not_joins_of_name hc] at hjoins

theorem cutSymbol_bounded (h : cutSymbol c cs = .ok p) : Bounded p.text p.rest := by
  unfold cutSymbol at h
  split at h
  · simp at h
  next kind hkind =>
    simp only [Except.ok.injEq] at h
    subst h
    exact ⟨by simp, by simp⟩
  next kind d rest hkind =>
    have hname := (plain_of_symbol hkind).2.2
    split at h
    next hjoin =>
      simp only [Bool.and_eq_true, decide_eq_true_eq] at hjoin
      obtain ⟨rfl, hjoin⟩ := hjoin
      split at h
      · simp at h
      next hthird =>
        simp only [Except.ok.injEq] at h
        subst h
        refine ⟨fun hrun => ?_, fun hrefuses hhead => ?_⟩
        · simp [hrun c List.mem_cons_self] at hname
        · have hcolon : c ≠ ':' := by
            rintro rfl
            simp [refusesEquals] at hrefuses
          simp [hcolon, hhead] at hthird
    next hjoin =>
      simp only [Except.ok.injEq] at h
      subst h
      refine ⟨fun hrun => ?_, fun hrefuses hhead => ?_⟩
      · simp [hrun c List.mem_cons_self] at hname
      · simp only [List.head?_cons, Option.some.injEq] at hhead
        simp [hhead, joins_of_refuses hrefuses] at hjoin

theorem cut_bounded (h : cut c cs = .ok p) : Bounded p.text p.rest := by
  unfold cut at h
  split at h
  next hblank =>
    simp only [Except.ok.injEq] at h
    subst h
    have hname : isNameChar c = false := by
      rw [Bool.eq_false_iff]
      intro hname
      simp [not_blank_of_name hname] at hblank
    have hjoins : joinsEquals c = false := by
      rw [Bool.eq_false_iff]
      intro hjoins
      simp [(joins_plain hjoins).1] at hblank
    exact bounded_of_plain hname hjoins
  split at h
  · exact cutString_bounded h
  split at h
  next hname =>
    simp only [Except.ok.injEq] at h
    exact h ▸ cutWord_bounded hname
  · exact cutSymbol_bounded h

theorem cut_lexical (h : cut c cs = .ok p) : Lexical p.kind p.text := by
  cases hk : p.kind with
  | some k => exact lexical_of_shape ((cut_fits h).2 k hk)
  | none =>
    -- Only a blank has no kind.
    unfold cut at h
    split at h
    next hblank =>
      cases h
      exact .blank hblank
    split at h
    · unfold cutString at h
      repeat' split at h
      all_goals cases h
      cases hk
    split at h
    · cases h
      cases hk
    · unfold cutSymbol at h
      repeat' split at h
      all_goals cases h
      all_goals cases hk

theorem cutString_quoted (h : ∀ c ∈ cs, endsString c = false) :
    cutString (cs ++ '"' :: rest) = .ok ⟨some .string, '"' :: (cs ++ ['"']), rest⟩ := by
  have hin : ∀ c ∈ cs, (! endsString c) = true := fun c hc => by simp [h c hc]
  have hend : (! endsString '"') = false := by decide
  rw [cutString, List.dropWhile_append_of_pos hin, List.takeWhile_append_of_pos hin,
    List.dropWhile_cons_of_neg (by simp [hend]), List.takeWhile_cons_of_neg (by simp [hend]),
    List.append_nil]
  simp

theorem cutWord_run (h : ∀ d ∈ cs, isNameChar d = true)
    (hrest : ∀ d ∈ rest.head?, isNameChar d = false) :
    cutWord c (cs ++ rest) = ⟨some (wordKind (c :: cs)), c :: cs, rest⟩ := by
  rw [cutWord, List.dropWhile_append_of_pos h, List.takeWhile_append_of_pos h]
  cases rest with
  | nil => simp
  | cons d rest =>
    have hd : isNameChar d = false := hrest d rfl
    rw [List.dropWhile_cons_of_neg (by simp [hd]), List.takeWhile_cons_of_neg (by simp [hd])]
    simp

theorem cutSymbol_single (h : symbolKind? c = some k)
    (hrest : joinsEquals c = true → rest.head? ≠ some '=') :
    cutSymbol c rest = .ok ⟨some k, [c], rest⟩ := by
  unfold cutSymbol
  rw [h]
  cases rest with
  | nil => rfl
  | cons d rest =>
    have hd : ¬ (d = '=' && joinsEquals c) = true := by
      simp only [Bool.and_eq_true, decide_eq_true_eq, not_and]
      rintro rfl hc
      exact hrest hc rfl
    simp only [hd, if_false, Bool.false_eq_true]

theorem cutSymbol_pair (h : joinsEquals c = true) (hrest : c ≠ ':' → rest.head? ≠ some '=') :
    cutSymbol c ('=' :: rest) = .ok ⟨some .operator, [c, '='], rest⟩ := by
  obtain ⟨k, hk⟩ := symbol_of_joins h
  unfold cutSymbol
  rw [hk]
  simpa [h] using hrest

theorem refuses_of_joins (h : joinsEquals c = true) : [c] ∈ refusesEquals := by
  have hall : ['=', '<', '>', ':'].all (fun c => refusesEquals.contains [c]) = true := by decide
  exact List.contains_iff_mem.mp (List.all_eq_true.mp hall c (List.contains_iff_mem.mp h))

theorem refuses_of_pair (h : joinsEquals c = true) (hc : c ≠ ':') : [c, '='] ∈ refusesEquals := by
  have hall : ['=', '<', '>', ':'].all (fun c => c = ':' || refusesEquals.contains [c, '=']) =
      true := by decide
  have hpair := List.all_eq_true.mp hall c (List.contains_iff_mem.mp h)
  simpa [hc] using hpair

theorem cut_shape (h : Shape k (c :: cs)) (hb : Bounded (c :: cs) rest) :
    cut c (cs ++ rest) = .ok ⟨some k, c :: cs, rest⟩ := by
  cases h with
  | @string cs inside =>
    have hblank : isBlank '"' = false := by decide
    rw [List.append_assoc, List.singleton_append, cut, hblank]
    simp only [Bool.false_eq_true, if_false, if_true]
    exact cutString_quoted inside
  | word name =>
    have hrest := hb.run name
    rw [List.forall_mem_cons] at name
    have hquote : c ≠ '"' := by
      rintro rfl
      exact absurd name.1 (by decide)
    rw [cut, not_blank_of_name name.1]
    simp only [Bool.false_eq_true, if_false, hquote, name.1, if_true]
    rw [cutWord_run name.2 hrest]
  | symbol kind =>
    obtain ⟨hblank, hquote, hname⟩ := plain_of_symbol kind
    rw [List.nil_append, cut, hblank]
    simp only [Bool.false_eq_true, if_false, hquote, hname]
    exact cutSymbol_single kind fun joins => hb.equals (refuses_of_joins joins)
  | pair joins =>
    obtain ⟨hblank, hquote, hname⟩ := joins_plain joins
    rw [List.singleton_append, cut, hblank]
    simp only [Bool.false_eq_true, if_false, hquote, hname]
    exact cutSymbol_pair joins fun hc => hb.equals (refuses_of_pair joins hc)

/-- A piece is cut off exactly where the grammar has one. -/
theorem cut_iff : cut c cs = .ok p ↔
    Lexical p.kind p.text ∧ Bounded p.text p.rest ∧ p.text ++ p.rest = c :: cs := by
  constructor
  · intro h
    exact ⟨cut_lexical h, cut_bounded h, (cut_fits h).1⟩
  · obtain ⟨kind, text, rest⟩ := p
    rintro ⟨hlex, hb, hline⟩
    dsimp only at hlex hb hline
    cases kind with
    | none =>
      cases hlex with
      | blank hblank =>
        cases hline
        rw [cut, hblank]
        rfl
    | some k =>
      have hshape := shape_of_lexical hlex
      cases text with
      | nil => nomatch hshape
      | cons d ds =>
        cases hline
        exact cut_shape hshape hb

end Lexer

end SplatLang
