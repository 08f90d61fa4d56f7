import SplatLang.Proofs.Yaml.Document

/-!
# What written fields stand for

A text comes back as a text, whatever it looks like, because it is quoted wherever its plain
spelling would stand for something else. A whole number of 64 bits comes back as itself. A written
document makes one change for each of its fields, in order.
-/

namespace SplatLang.Yaml

open Text

-- ---------------------------------------------------------------------------
-- Texts
-- ---------------------------------------------------------------------------

/-- Whatever a text looks like, it comes back as a text. -/
theorem asText?_written (s : String) :
    (Yaml.scalar "" (styleOf s = .plain) s).asText? = some s := by
  by_cases hplain : styleOf s = .plain
  · obtain ⟨-, -, hstays⟩ := PlainText.of_style hplain
    have htext : Resolved.ofSpelling true s = .text s := by
      simp only [staysText, Bool.and_eq_true, decide_eq_true_eq] at hstays
      exact hstays.1
    simp [asText?, Resolved.ofScalar?, hplain, htext]
  · simp [asText?, Resolved.ofScalar?, hplain]

-- ---------------------------------------------------------------------------
-- Whole numbers
-- ---------------------------------------------------------------------------

theorem isDigit_toDigits (n : Nat) : ∀ c ∈ Nat.toDigits 10 n, c.isDigit = true :=
  fun _ => Nat.isDigit_of_mem_toDigits (by decide) (by decide)

theorem toDigits_front {n : Nat} (h : 0 < n) : (Nat.toDigits 10 n).head? ≠ some '0' := by
  induction n using Nat.strongRecOn with
  | ind n ih =>
    rw [Nat.toDigits_eq_if (by decide)]
    split
    next hlt =>
      have : ∀ d < 10, 0 < d → [Nat.digitChar d].head? ≠ some '0' := by decide
      exact this n hlt h
    next hge =>
      have := ih (n / 10) (Nat.div_lt_self h (by decide)) (by omega)
      rwa [List.head?_append_of_ne_nil _ Nat.toDigits_ne_nil]

theorem digitValue?_of_isDigit (h : c.isDigit = true) :
    digitValue? c = some (c.toNat - '0'.toNat) ∧ c.toNat - '0'.toNat < 10 := by
  have hle : '0' ≤ c ∧ c ≤ '9' := by simpa [Char.isDigit, Char.le_def] using h
  have hlt : c.toNat ≤ 57 := hle.2
  exact ⟨if_pos hle, Nat.lt_of_le_of_lt (Nat.sub_le_sub_right hlt 48) (by decide)⟩

theorem foldl_addDigit (h : ∀ c ∈ cs, c.isDigit = true) (acc : Nat) :
    cs.foldl (addDigit 10) (some acc) = some (Nat.ofDigitChars 10 cs acc) := by
  induction cs generalizing acc with
  | nil => simp
  | cons c cs ih =>
    rw [List.forall_mem_cons] at h
    obtain ⟨hvalue, hlt⟩ := digitValue?_of_isDigit h.1
    have hadd : addDigit 10 (some acc) c = some (10 * acc + (c.toNat - '0'.toNat)) := by
      rw [addDigit, hvalue, Nat.mul_comm 10]
      exact if_pos hlt
    rw [List.foldl_cons, hadd, ih h.2, Nat.ofDigitChars_cons]

/-- Without a zero at the front the base is ten. -/
theorem anyBase?_eq (h : cs.head? ≠ some '0') : anyBase? cs = inBase? 10 cs := by
  unfold anyBase?
  split <;> first | rfl | exact absurd rfl h

theorem anyBase?_toDigits (n : Nat) : anyBase? (Nat.toDigits 10 n) = some n := by
  rcases Nat.eq_zero_or_pos n with rfl | hn
  · rfl
  · rw [anyBase?_eq (toDigits_front hn), inBase?, if_neg Nat.toDigits_ne_nil,
      foldl_addDigit (isDigit_toDigits n), Nat.ofDigitChars_ten_toDigits]

theorem toList_toString_nat (n : Nat) : (toString (n : Int)).toList = Nat.toDigits 10 n :=
  Nat.toList_repr

theorem toList_toString_neg (n : Nat) :
    (toString (Int.negSucc n)).toList = '-' :: Nat.toDigits 10 (n + 1) := by
  show ("-" ++ (n + 1).repr).toList = _
  rw [String.toList_append, Nat.toList_repr]
  rfl

def startsNumber : List Char → Bool
  | '-' :: c :: _ => c.isDigit
  | c :: _ => c.isDigit
  | [] => false

theorem startsNumber_digits (h : ∀ c ∈ cs, c.isDigit = true) (hne : cs ≠ []) :
    startsNumber cs = true := by
  unfold startsNumber
  split
  · exact h _ (by simp)
  · exact h _ (by simp)
  · exact absurd rfl hne

theorem cutSign_digits (h : ∀ c ∈ cs, c.isDigit = true) : cutSign cs = (false, cs) := by
  unfold cutSign
  split
  · exact absurd (h '-' (by simp)) (by decide)
  · exact absurd (h '+' (by simp)) (by decide)
  · rfl

theorem not_named (h : startsNumber s.toList = true) :
    Resolved.nulls.contains s = false ∧ Resolved.trues.contains s = false ∧
      Resolved.falses.contains s = false ∧ Resolved.unbounded.contains s = false ∧
      Resolved.unboundedBelow.contains s = false := by
  have hnames : ∀ name ∈ Resolved.nulls ++ Resolved.trues ++ Resolved.falses ++
      Resolved.unbounded ++ Resolved.unboundedBelow, startsNumber name.toList = false := by
    decide
  have hnot : s ∉ Resolved.nulls ++ Resolved.trues ++ Resolved.falses ++ Resolved.unbounded ++
      Resolved.unboundedBelow := by
    intro hs
    rw [hnames s hs] at h
    cases h
  simpa [List.mem_append, and_assoc] using hnot

theorem ofSpelling_number (hs : startsNumber s.toList = true)
    (htime : Resolved.isTime s.toList = false) (hunderscore : '_' ∉ s.toList)
    (hnumber : Resolved.wholeNumber? s.toList = some n) :
    Resolved.ofSpelling true s = .integer n := by
  obtain ⟨hnull, htrue, hfalse, hunbounded, hbelow⟩ := not_named hs
  have hfilter : s.toList.filter (· ≠ '_') = s.toList := by
    rw [List.filter_eq_self]
    intro c hc
    have hne : c ≠ '_' := fun h => hunderscore (h ▸ hc)
    simpa using hne
  rw [Resolved.ofSpelling]
  simp only [hnull, htrue, hfalse, hunbounded, hbelow, Bool.false_eq_true, if_false]
  cases hcs : s.toList with
  | nil => rw [hcs] at hs; cases hs
  | cons c rest =>
    rw [hcs] at hs htime hfilter hnumber
    have hfront : (c.isDigit || c = '+' || c = '-') = true := by
      cases rest with
      | nil => simp_all [startsNumber]
      | cons d rest =>
        by_cases hc : c = '-'
        · simp [hc]
        · simp_all [startsNumber]
    simp only [hfront, htime, Bool.and_false, Bool.false_eq_true, if_true, if_false, hfilter,
      Resolved.number?, hnumber, Option.getD_some]

theorem isTime_digits (h : ∀ c ∈ cs, c.isDigit = true) : Resolved.isTime cs = false := by
  have htake : cs.takeWhile Char.isDigit = cs := by simpa using h
  have hdate : Resolved.date? cs = none := by
    rw [Resolved.date?, htake]
    split
    next hlen =>
      -- A year with nothing behind it is no date.
      have hne : cs ≠ [] := by
        rintro rfl
        cases hlen
      have hshort : Resolved.shortNumber? 4 cs = some (Nat.ofDigitChars 10 cs 0, []) := by
        rw [Resolved.shortNumber?, htake, List.take_of_length_le (Nat.le_of_eq hlen)]
        simp [hne]
      simp [hshort, Resolved.expectChar?]
    · rfl
  rw [Resolved.isTime, hdate]

theorem isTime_dash (cs : List Char) : Resolved.isTime ('-' :: cs) = false := by
  have hdate : Resolved.date? ('-' :: cs) = none := by simp [Resolved.date?]
  rw [Resolved.isTime, hdate]

theorem ofSpelling_nat (h : n < bound64) :
    Resolved.ofSpelling true (toString (n : Int)) = .integer n := by
  have hlist := toList_toString_nat n
  have hdigits := isDigit_toDigits n
  refine ofSpelling_number ?_ ?_ ?_ ?_
  all_goals rw [hlist]
  · exact startsNumber_digits hdigits Nat.toDigits_ne_nil
  · exact isTime_digits hdigits
  · exact fun hmem => absurd (hdigits _ hmem) (by decide)
  · have hsign : cutSign (Nat.toDigits 10 n) = (false, Nat.toDigits 10 n) :=
      cutSign_digits hdigits
    simp [Resolved.wholeNumber?, int64?, hsign, anyBase?_toDigits, h]

theorem ofSpelling_neg (h : n + 1 ≤ bound64) :
    Resolved.ofSpelling true (toString (Int.negSucc n)) = .integer (Int.negSucc n) := by
  have hlist := toList_toString_neg n
  have hdigits := isDigit_toDigits (n + 1)
  refine ofSpelling_number ?_ ?_ ?_ ?_
  all_goals rw [hlist]
  · obtain ⟨c, cs, hcs⟩ := List.exists_cons_of_ne_nil (@Nat.toDigits_ne_nil (n + 1) 10)
    rw [hcs] at hdigits ⊢
    exact hdigits c List.mem_cons_self
  · exact isTime_dash _
  · rw [List.mem_cons, not_or]
    exact ⟨by decide, fun hmem => absurd (hdigits _ hmem) (by decide)⟩
  · simp [Resolved.wholeNumber?, int64?, cutSign, anyBase?_toDigits, h]
    omega

/-- A number of 64 bits is read back. -/
theorem asInteger?_toString (h : -(bound64 : Int) ≤ n ∧ n < bound64) :
    (Yaml.scalar "" true (toString n)).asInteger? = some n := by
  have hspelling : Resolved.ofSpelling true (toString n) = .integer n := by
    cases n with
    | ofNat m => exact ofSpelling_nat (Int.ofNat_lt.mp h.2)
    | negSucc m => exact ofSpelling_neg (by omega)
  simp only [asInteger?, Resolved.ofScalar?, if_true, hspelling, h.2]

-- ---------------------------------------------------------------------------
-- Words
-- ---------------------------------------------------------------------------

theorem plainFront_word (hc : isWordChar c = true)
    (hdash : c = '-' → rest.head?.all isBlank = false) : PlainFront (c :: rest) := by
  refine ⟨c, rest, rfl, not_isGap_of_isWordChar hc, ?_⟩
  rw [marksFront, Lexer.not_mark_of_isWordChar hc, Bool.false_or]
  by_cases hd : c = '-'
  · rw [hdash hd, Bool.and_false]
  · have hmarks : c ≠ '?' ∧ c ≠ ':' := by
      constructor <;> rintro rfl <;> exact absurd hc (by decide)
    simp [hd, hmarks]

theorem isWordChar_of_isDigit (h : Char.isDigit c = true) : isWordChar c = true := by
  simp [isWordChar, Char.isAlphanum, h]

theorem isWord_toString (n : Int) : IsWord (toString n).toList := by
  have hword (m : Nat) : ∀ c ∈ Nat.toDigits 10 m, isWordChar c = true :=
    fun c hc => isWordChar_of_isDigit (isDigit_toDigits m c hc)
  have hfront (m : Nat) : ∃ c cs, Nat.toDigits 10 m = c :: cs ∧ c.isDigit = true := by
    obtain ⟨c, cs, hcs⟩ := List.exists_cons_of_ne_nil (@Nat.toDigits_ne_nil m 10)
    exact ⟨c, cs, hcs, isDigit_toDigits m c (by simp [hcs])⟩
  cases n with
  | ofNat m =>
    obtain ⟨c, cs, hcs, hc⟩ := hfront m
    have hlist : (toString (Int.ofNat m)).toList = c :: cs := (toList_toString_nat m).trans hcs
    rw [hlist, ← hcs]
    refine ⟨hword m, hcs ▸ plainFront_word (isWordChar_of_isDigit hc) ?_⟩
    rintro rfl
    cases hc
  | negSucc m =>
    obtain ⟨c, cs, hcs, hc⟩ := hfront (m + 1)
    rw [toList_toString_neg]
    refine ⟨List.forall_mem_cons.mpr ⟨by decide, hword (m + 1)⟩, ?_⟩
    refine plainFront_word (by decide) fun _ => ?_
    rw [hcs]
    exact (Bool.or_eq_false_iff.mp (not_isGap_of_isWordChar (isWordChar_of_isDigit hc))).1

-- ---------------------------------------------------------------------------
-- Records
-- ---------------------------------------------------------------------------

def Field.key : Field → String
  | .text key _ => key
  | .word key _ => key
  | .group key _ => key

theorem Field.entry_eq (f : Field) : f.entry = (Yaml.scalar "" true f.key, f.entry.2) := by
  cases f <;> rfl

theorem Field.Proper.key {f : Field} (h : f.Proper) : Lexer.IsKey f.key.toList := by
  cases f with
  | text key value => exact h
  | word key value => exact h.1
  | group key fields => exact h.1

/-- The keys are texts that are all different, and none of them merges. -/
structure NamesFields (fs : List Field) : Prop where
  texts : ∀ f ∈ fs, (Yaml.scalar "" true f.key).asText? = some f.key
  noMerge : ∀ f ∈ fs, f.key ≠ "<<"
  distinct : (fs.map Field.key).Nodup

theorem entryChanges?_fields (names : String → Bool) (h : NamesFields fs)
    (hseen : ∀ f ∈ fs, f.key ∉ seen) :
    entryChanges? names seen (fieldEntries fs) =
      some (fs.map fun f => .set f.key f.entry.2) := by
  induction fs generalizing seen with
  | nil => rfl
  | cons f fs ih =>
    obtain ⟨htexts, hmerge, hdistinct⟩ := h
    rw [List.forall_mem_cons] at htexts hmerge hseen
    rw [List.map_cons, List.nodup_cons] at hdistinct
    have hrest := @ih (f.key :: seen) ⟨htexts.2, hmerge.2, hdistinct.2⟩ fun g hg => by
      rw [List.mem_cons, not_or]
      refine ⟨fun heq => hdistinct.1 ?_, hseen.2 g hg⟩
      exact heq ▸ List.mem_map_of_mem hg
    rw [fieldEntries, f.entry_eq, entryChanges?]
    simp [isMerge, hmerge.1, htexts.1, hseen.1, hrest]

/-! Without aliases there is no limit on how many nodes are visited. -/

theorem add?_false (v : Visits) (h : v.aliased = 0) : v.add? false = some ⟨v.all + 1, 0⟩ := by
  simp [Visits.add?, h]

theorem isMerge_key (h : Lexer.IsKey key.toList) : isMerge (Yaml.scalar "" true key) = false := by
  have hne : key ≠ "<<" := by
    rintro rfl
    exact absurd (h.chars '<' (by decide)) (by decide)
  simp [isMerge, hne]

mutual

theorem visit?_field : (f : Field) → f.Proper → (v : Visits) → v.aliased = 0 →
    ∃ n, visit? false f.entry.2 v = some ⟨n, 0⟩
  | .text _ _, _, v, hv => ⟨v.all + 1, add?_false v hv⟩
  | .word _ _, _, v, hv => ⟨v.all + 1, add?_false v hv⟩
  | .group _ fields, h, v, hv => by
    obtain ⟨n, hn⟩ := visitEntries?_fields fields h.2.2 ⟨v.all + 1, 0⟩ rfl
    exact ⟨n, by simp [Field.entry, visit?, add?_false v hv, hn]⟩

theorem visitEntries?_fields : (fs : List Field) → ProperFields fs → (v : Visits) →
    v.aliased = 0 → ∃ n, visitEntries? false (fieldEntries fs) v = some ⟨n, 0⟩
  | [], _, v, hv => ⟨v.all, by rw [← hv]; rfl⟩
  | f :: fs, h, v, hv => by
    obtain ⟨n, hn⟩ := visit?_field f h.1 ⟨v.all + 1, 0⟩ rfl
    obtain ⟨m, hm⟩ := visitEntries?_fields fs h.2 ⟨n, 0⟩ rfl
    refine ⟨m, ?_⟩
    rw [fieldEntries, f.entry_eq, visitEntries?, isMerge_key h.1.key]
    simp [visit?, add?_false v hv, hn, hm]

end

theorem isBounded_fields (h : ProperFields fs) :
    Document.isBounded ⟨Yaml.mapping (fieldEntries fs), []⟩ = true := by
  obtain ⟨n, hn⟩ := visitEntries?_fields fs h ⟨2, 0⟩ rfl
  simp [Document.isBounded, visit?, add?_false ⟨1, 0⟩ rfl, hn]

end SplatLang.Yaml
