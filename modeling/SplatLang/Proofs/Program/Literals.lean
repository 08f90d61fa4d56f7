import Mathlib.Data.Nat.Digits.Defs
import SplatLang.Proofs.Parser.Exact
import SplatLang.Proofs.Program.WellFormed
import SplatLang.Proofs.Run.Soundness

/-!
# Readers of literals

A literal is read three times: the parser tells it by its token, the checker finds its type and a
run its value, the last two from the text alone. They agree on every text, and on every token of a
source they agree with the parser. For tokens put together by hand the parser goes by the kind, so
nothing is said of those.

The value of a numeral is stated by places, with `Nat.ofDigits`, and not by the loop that reads it.
-/

namespace SplatLang

open Lexer Grammar Typing Run

-- ---------------------------------------------------------------------------
-- Numerals
-- ---------------------------------------------------------------------------

/-- The number that digits stand for, the last one counting once and each other one ten times
what the one behind it counts. -/
def placeValue (cs : List Char) : Nat :=
  Nat.ofDigits 10 (cs.reverse.map fun c => c.toNat - '0'.toNat)

theorem ofDigitChars_eq_placeValue (cs : List Char) : Nat.ofDigitChars 10 cs 0 = placeValue cs := by
  induction cs with
  | nil => rfl
  | cons c cs ih =>
    rw [Nat.ofDigitChars_cons, Nat.ofDigitChars_eq_ofDigitChars_zero, ih, placeValue, placeValue,
      List.reverse_cons, List.map_append, Nat.ofDigits_append, List.length_map,
      List.length_reverse, Nat.add_comm, Nat.mul_zero, Nat.zero_add]
    exact congrArg _ (congrArg _ Nat.ofDigits_singleton.symm)

theorem integer?_toString (i : Int) : Text.integer? (toString i).toList = some i := by
  have hdigits (n : Nat) : (Nat.toDigits 10 n).all Char.isDigit = true :=
    List.all_eq_true.mpr fun c hc => Nat.isDigit_of_mem_toDigits (by decide) (by decide) hc
  cases i with
  | ofNat n =>
    have htext : (toString (Int.ofNat n)).toList = Nat.toDigits 10 n := Nat.toList_repr
    rw [htext, integer?_of_digits Nat.toDigits_ne_nil (hdigits n), Nat.ofDigitChars_ten_toDigits]
    rfl
  | negSucc n =>
    have htext : (toString (Int.negSucc n)).toList = '-' :: Nat.toDigits 10 (n + 1) := by
      show ("-" ++ Nat.repr (n + 1)).toList = _
      rw [String.toList_append, Nat.toList_repr]
      rfl
    have hnatural : Text.natural? (Nat.toDigits 10 (n + 1)) = some (n + 1) := by
      rw [Text.natural?, if_pos ⟨Nat.toDigits_ne_nil, hdigits (n + 1)⟩,
        Nat.ofDigitChars_ten_toDigits]
    rw [htext, Text.integer?, if_pos rfl, hnatural]
    rfl

theorem int32?_of_integer? (h : Text.integer? s.toList = some i) (hlow : -2147483648 ≤ i)
    (hhigh : i < 2147483648) : Text.int32? s = some (Int32.ofInt i) := by
  simp [Text.int32?, h, Option.filter, hlow, hhigh]

theorem int32?_text (n : Int32) : Text.int32? (Value.integer n).text = some n := by
  rw [Value.text, int32?_of_integer? (integer?_toString n.toInt) n.le_toInt n.toInt_lt,
    Int32.ofInt_toInt]

theorem natural?_digits (h : Text.natural? ds = some k) :
    ds ≠ [] ∧ ds.all Char.isDigit = true := by
  unfold Text.natural? at h
  split at h
  · assumption
  · cases h

/-- A numeral is a nonempty run of digits, perhaps behind a sign. -/
theorem int32?_digits (h : Text.int32? raw = some n) :
    ∃ ds, ds ≠ [] ∧ ds.all Char.isDigit = true ∧
      (raw.toList = ds ∨ raw.toList = '-' :: ds ∨ raw.toList = '+' :: ds) := by
  obtain ⟨i, hi, -⟩ := Option.map_eq_some_iff.mp h
  have hi : Text.integer? raw.toList = some i := (Option.filter_eq_some_iff.mp hi).1
  have hdigits {ds : List Char} {f : Int → Int}
      (h : Option.map f (do let a ← Text.natural? ds; pure (a : Int)) = some i) :
      ds ≠ [] ∧ ds.all Char.isDigit = true := by
    cases hk : Text.natural? ds with
    | none => simp [hk] at h
    | some k => exact natural?_digits hk
  unfold Text.integer? at hi
  split at hi
  · cases hi
  next c rest heq =>
  split at hi
  next hc => exact ⟨rest, (hdigits hi).1, (hdigits hi).2, .inr (.inl (by rw [heq, hc]))⟩
  split at hi
  next hc => exact ⟨rest, (hdigits hi).1, (hdigits hi).2, .inr (.inr (by rw [heq, hc]))⟩
  · exact ⟨raw.toList, (hdigits hi).1, (hdigits hi).2, .inl rfl⟩

-- ---------------------------------------------------------------------------
-- The checker and the run
-- ---------------------------------------------------------------------------

theorem unquote?_eq_some (h : Value.unquote? cs = some inside) : cs = '"' :: inside ++ ['"'] := by
  unfold Value.unquote? at h
  split at h
  next rest =>
    split at h
    next hlast =>
      obtain ⟨front, rfl⟩ := List.getLast?_eq_some_iff.mp hlast
      simp only [List.dropLast_concat, Option.some.injEq] at h
      rw [h, List.cons_append]
    · cases h
  · cases h

theorem literalTyped_of_value (h : Value.ofLiteral? raw = some v) : LiteralTyped raw v.ty := by
  unfold Value.ofLiteral? at h
  split at h
  next hraw =>
    cases h
    exact hraw ▸ .yes
  split at h
  next hraw =>
    cases h
    exact hraw ▸ .no
  split at h
  next inside hquote =>
    cases h
    have hraw : raw = String.ofList ('"' :: inside ++ ['"']) := by
      rw [← unquote?_eq_some hquote, String.ofList_toList]
    exact hraw ▸ .string inside
  · obtain ⟨n, hn, rfl⟩ := Option.map_eq_some_iff.mp h
    exact .integer hn

theorem ofLiteral?_tooLarge (hne : s.toList ≠ []) (hd : s.toList.all Char.isDigit = true)
    (hlarge : 2 ^ 31 ≤ Nat.ofDigitChars 10 s.toList 0) : Value.ofLiteral? s = none := by
  cases hvalue : Value.ofLiteral? s with
  | none => rfl
  | some v =>
    exfalso
    have htyped := literalTyped_of_value hvalue
    generalize v.ty = ty at htyped
    cases htyped with
    | yes | no => exact absurd hd (by decide)
    | string inside => simp at hd
    | integer hn =>
      have hsmall := (int32?_of_digits hne hd).mp (by rw [hn, Option.isSome_some])
      omega

theorem literalType?_eq (raw : String) :
    literalType? raw = (Value.ofLiteral? raw).map Value.ty := by
  cases hvalue : Value.ofLiteral? raw with
  | some v => exact literalType?_ok.mpr (literalTyped_of_value hvalue)
  | none =>
    cases htype : literalType? raw with
    | none => rfl
    | some t =>
      obtain ⟨v, hv, -⟩ := ofLiteral?_typed (literalType?_ok.mp htype)
      rw [hvalue] at hv
      cases hv

-- ---------------------------------------------------------------------------
-- The parser
-- ---------------------------------------------------------------------------

theorem string_of_quote (h : Shape k ('"' :: cs)) : k = .string := by
  cases h with
  | string _ => rfl
  | word name =>
    have hquote := name '"' List.mem_cons_self
    exact absurd hquote (by decide)
  | symbol kind => exact absurd kind (by simp [symbolKind?])
  | pair joins => exact absurd joins (by decide)

theorem int_of_digits (h : Shape k cs) (hd : cs.all Char.isDigit = true) : k = .int := by
  cases h with
  | string _ => simp at hd
  | word _ => rw [wordKind, if_pos hd]
  | symbol kind =>
    simp only [List.all_cons, List.all_nil, Bool.and_true] at hd
    unfold symbolKind? at kind
    split at kind
    next hmem =>
      simp only [List.contains_iff_mem, List.mem_cons, List.not_mem_nil, or_false] at hmem
      rcases hmem with rfl | rfl | rfl | rfl | rfl | rfl | rfl | rfl <;> simp at hd
    split at kind
    next hmem =>
      simp only [List.contains_iff_mem, List.mem_cons, List.not_mem_nil, or_false] at hmem
      rcases hmem with rfl | rfl | rfl | rfl | rfl <;> simp at hd
    · cases kind
  | pair _ => simp at hd

theorem not_signed (hc : c = '-' ∨ c = '+') (hne : ds ≠ []) : ¬ Shape k (c :: ds) := by
  intro h
  cases h with
  | string _ => simp at hc
  | word name =>
    have hname := name c List.mem_cons_self
    rcases hc with rfl | rfl <;> exact absurd hname (by decide)
  | symbol _ => exact hne rfl
  | pair joins => rcases hc with rfl | rfl <;> exact absurd joins (by decide)

/-- On a token that can be cut from a line the parser and the checker agree. -/
theorem isLiteral_iff_typed (ht : t.Genuine) :
    Parser.isLiteral t = true ↔ (literalType? t.value).isSome = true := by
  rw [Parser.isLiteral_iff, Option.isSome_iff_exists]
  simp only [literalType?_ok]
  constructor
  · rintro (h | h | h | ⟨hk, h⟩)
    · exact ⟨.boolean, h ▸ .yes⟩
    · exact ⟨.boolean, h ▸ .no⟩
    · obtain ⟨inside, hcs, -⟩ := ht.shape.of_string h
      have hvalue : t.value = String.ofList ('"' :: inside ++ ['"']) := by
        rw [← String.ofList_toList (s := t.value), hcs, List.cons_append]
      exact ⟨.string, hvalue ▸ .string inside⟩
    · obtain ⟨n, hn⟩ := Option.isSome_iff_exists.mp h
      exact ⟨_, .integer hn⟩
  · rintro ⟨ty, h⟩
    generalize hraw : t.value = raw at h
    cases h with
    | yes => exact .inl hraw
    | no => exact .inr (.inl hraw)
    | string inside =>
      have hshape := ht.shape
      rw [hraw, String.toList_ofList, List.cons_append] at hshape
      exact .inr (.inr (.inl (string_of_quote hshape)))
    | integer hn =>
      have hshape := ht.shape
      rw [hraw] at hshape
      obtain ⟨ds, hne, hd, hcs | hcs | hcs⟩ := int32?_digits hn <;> rw [hcs] at hshape
      · refine .inr (.inr (.inr ⟨int_of_digits hshape hd, ?_⟩))
        rw [hraw, hn, Option.isSome_some]
      · exact absurd hshape (not_signed (.inl rfl) hne)
      · exact absurd hshape (not_signed (.inr rfl) hne)

/-- An expression is read as a literal exactly if it begins with one. -/
theorem parseExpr_literal (ht : t.Genuine) :
    Parser.parseExpr (n + 1) eof (t :: rest) = .ok (.literal t t.value) rest ↔
      Parser.isLiteral t = true := by
  constructor
  · intro h
    obtain ⟨us, hus, derived⟩ := Parser.parseExpr_sound (n + 1) h
    rw [Expr.bare] at derived
    generalize t.value = raw at derived
    cases derived with
    | literal raw =>
      cases hus
      exact Parser.isLiteral_iff.mpr raw
  · intro h
    have hparen : t.value ≠ "(" := Parser.literal_ne (Parser.isLiteral_iff.mp h)
      (Parser.keepsQuote_of_genuine ht) rfl
    rw [Parser.parseExpr, Parser.bind_of_ok Parser.peek_cons, if_neg hparen, if_pos h,
      Parser.bind_of_ok Parser.next_cons]
    rfl

/-- What the parser, the checker and a run make of literals. On every text the checker finds the
type of the value that a run finds, and neither finds anything unless both do. On a token of a
source the parser takes a literal exactly where the checker does. Runs of digits give their
value as long as it fits; numbers and truth values are read back from how they are printed, and
any text at all from between quotes. -/
theorem literal_readers_agree :
    (∀ raw, literalType? raw = (Value.ofLiteral? raw).map Value.ty) ∧
    (∀ t : Token, t.Lexed → (Parser.isLiteral t = true ↔ (literalType? t.value).isSome = true) ∧
      ∀ n eof rest, Parser.parseExpr (n + 1) eof (t :: rest) = .ok (.literal t t.value) rest ↔
        (literalType? t.value).isSome = true) ∧
    (∀ s : String, s.toList ≠ [] → s.toList.all Char.isDigit = true →
      (placeValue s.toList < 2 ^ 31 →
        ∃ n, Value.ofLiteral? s = some (.integer n) ∧ n.toInt = placeValue s.toList) ∧
      (2 ^ 31 ≤ placeValue s.toList → Value.ofLiteral? s = none)) ∧
    (∀ n, Value.ofLiteral? (Value.integer n).text = some (.integer n)) ∧
    (∀ b, Value.ofLiteral? (Value.boolean b).text = some (.boolean b)) ∧
    (∀ s, Value.ofLiteral? ("\"" ++ s ++ "\"") = some (.string s)) := by
  refine ⟨literalType?_eq, fun t ht => ?_, fun s hne hd => ⟨fun hlt => ?_, fun hle => ?_⟩,
    fun n => ofLiteral?_number (int32?_text n), by decide, fun s => ?_⟩
  · have hiff := isLiteral_iff_typed ht.genuine
    exact ⟨hiff, fun n eof rest => (parseExpr_literal ht.genuine).trans hiff⟩
  · have hint := integer?_of_digits hne hd
    rw [ofDigitChars_eq_placeValue] at hint
    refine ⟨_, ofLiteral?_number (int32?_of_integer? hint (by omega) (by omega)), ?_⟩
    exact Int32.toInt_ofInt_of_le (by omega) (by omega)
  · exact ofLiteral?_tooLarge hne hd (by rwa [ofDigitChars_eq_placeValue])
  · have hquoted : "\"" ++ s ++ "\"" = String.ofList ('"' :: s.toList ++ ['"']) := by
      simp [← String.toList_inj]
    rw [hquoted, ofLiteral?_quoted, String.ofList_toList]

def numeralAndName : Source := ⟨Text.bytesOf "007 x", none⟩

def numeral : Token := ⟨.int, "007", ⟨1, 1, ""⟩⟩

theorem literal_readers_agree_numeral :
    (numeral.Lexed ∧ Parser.parseExpr 1 ⟨1, 6, ""⟩ [numeral] = .ok (.literal numeral "007") []) ∧
    (∃ n, Value.ofLiteral? "007" = some (.integer n) ∧ n.toInt = 7) ∧
    Value.ofLiteral? "2147483648" = none := by
  obtain ⟨-, htoken, hdigits, -⟩ := literal_readers_agree
  have htokens : tokenize "" numeralAndName = .ok [numeral, ⟨.ident, "x", ⟨1, 5, ""⟩⟩] := by cbv
  have hlexed : numeral.Lexed := ⟨"", numeralAndName, _, htokens, List.mem_cons_self⟩
  have hseven : placeValue "007".toList = 7 := by decide
  have hlarge : placeValue "2147483648".toList = 2147483648 := by decide
  refine ⟨⟨hlexed, ((htoken numeral hlexed).2 0 _ []).mpr rfl⟩, ?_, ?_⟩
  · have hvalue := (hdigits "007" (by decide) (by decide)).1 (by omega)
    rwa [hseven] at hvalue
  · exact (hdigits "2147483648" (by decide) (by decide)).2 (by omega)

end SplatLang
