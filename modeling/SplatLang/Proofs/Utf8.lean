import SplatLang.Text.Utf8

/-!
# Laws of reading and writing UTF-8

Reading undoes writing. A byte below 128 stands for itself in both directions: it is written for
the character of its number only, and such a character is read from it only. Texts are ordered as
their bytes are.
-/

namespace SplatLang.Text

theorem toNat_byte {n : Nat} (h : n < 256) : (UInt8.ofNat n).toNat = n := by
  rw [UInt8.toNat_ofNat']
  exact Nat.mod_eq_of_lt h

theorem isTrailing_byte (n : Nat) : isTrailing (UInt8.ofNat (n % 64 + 128)) = true := by
  have h : (UInt8.ofNat (n % 64 + 128)).toNat = n % 64 + 128 := toNat_byte (by omega)
  simp only [isTrailing, Bool.and_eq_true, decide_eq_true_eq, UInt8.le_iff_toNat_le,
    UInt8.lt_iff_toNat_lt, h, UInt8.reduceToNat]
  omega

theorem trailingBits_byte (n : Nat) : trailingBits (UInt8.ofNat (n % 64 + 128)) = n % 64 := by
  have h : (UInt8.ofNat (n % 64 + 128)).toNat = n % 64 + 128 := toNat_byte (by omega)
  unfold trailingBits
  omega

theorem char_bounds (c : Char) : c.toNat < 0xD800 ∨ 0xE000 ≤ c.toNat ∧ c.toNat ≤ 0x10FFFF := by
  have h := c.valid
  simp only [UInt32.isValidChar, Nat.isValidChar] at h
  show c.val.toNat < _ ∨ _ ≤ c.val.toNat ∧ c.val.toNat ≤ _
  omega

theorem frontChar?_encode (c : Char) (rest : Bytes) :
    frontChar? (String.utf8EncodeChar c ++ rest) = some (c, (String.utf8EncodeChar c).length) := by
  have hv : c.val.toNat = c.toNat := rfl
  have hb := char_bounds c
  unfold String.utf8EncodeChar
  simp only [hv]
  split
  next h =>
    have ha : (UInt8.ofNat c.toNat).toNat = c.toNat := toNat_byte (by omega)
    simp only [List.cons_append, frontChar?, UInt8.lt_iff_toNat_lt, ha, UInt8.reduceToNat]
    rw [if_pos (by omega), Char.ofNat_toNat]
    rfl
  split
  next h h' =>
    have ha : (UInt8.ofNat (c.toNat / 64 % 32 + 192)).toNat = c.toNat / 64 % 32 + 192 :=
      toNat_byte (by omega)
    simp only [List.cons_append, frontChar?, UInt8.lt_iff_toNat_lt, ha, UInt8.reduceToNat,
      isTrailing_byte, trailingBits_byte]
    have hn : (c.toNat / 64 % 32 + 192 - 192) * 64 + c.toNat % 64 = c.toNat := by omega
    rw [if_neg (by omega), if_neg (by omega), if_pos (by omega), if_pos trivial, hn,
      Char.ofNat_toNat]
    rfl
  split
  next h h' h'' =>
    have ha : (UInt8.ofNat (c.toNat / 4096 % 16 + 224)).toNat = c.toNat / 4096 % 16 + 224 :=
      toNat_byte (by omega)
    simp only [List.cons_append, frontChar?, UInt8.lt_iff_toNat_lt, ha, UInt8.reduceToNat,
      isTrailing_byte, trailingBits_byte]
    have hn : (c.toNat / 4096 % 16 + 224 - 224) * 4096 + c.toNat / 64 % 64 * 64 + c.toNat % 64 =
      c.toNat := by omega
    rw [if_neg (by omega), if_neg (by omega), if_neg (by omega), if_pos (by omega), hn,
      Char.ofNat_toNat, if_pos]
    · rfl
    · simp only [Bool.true_and, Bool.and_eq_true, Bool.or_eq_true, decide_eq_true_eq]
      omega
  next h h' h'' =>
    have ha : (UInt8.ofNat (c.toNat / 262144 % 8 + 240)).toNat = c.toNat / 262144 % 8 + 240 :=
      toNat_byte (by omega)
    simp only [List.cons_append, frontChar?, UInt8.lt_iff_toNat_lt, ha, UInt8.reduceToNat,
      isTrailing_byte, trailingBits_byte]
    have hn : (c.toNat / 262144 % 8 + 240 - 240) * 262144 + c.toNat / 4096 % 64 * 4096 +
      c.toNat / 64 % 64 * 64 + c.toNat % 64 = c.toNat := by omega
    rw [if_neg (by omega), if_neg (by omega), if_neg (by omega), if_neg (by omega), hn,
      Char.ofNat_toNat, if_pos]
    · rfl
    · simp only [Bool.true_and, Bool.and_eq_true, decide_eq_true_eq]
      omega

theorem decodeFrom_skip (bs rest : Bytes) :
    decodeFrom bs.length (bs ++ rest) = decodeFrom 0 rest := by
  induction bs with
  | nil => rfl
  | cons b bs ih => exact ih

theorem decode_encode_append (c : Char) (rest : Bytes) :
    decode (String.utf8EncodeChar c ++ rest) = c :: decode rest := by
  have hfront := frontChar?_encode c rest
  cases hbs : String.utf8EncodeChar c with
  | nil => exact absurd hbs String.utf8EncodeChar_ne_nil
  | cons b bs =>
    rw [hbs] at hfront
    rw [decode, List.cons_append, decodeFrom]
    rw [List.cons_append] at hfront
    simp only [hfront, List.length_cons, Nat.add_sub_cancel]
    rw [decodeFrom_skip, decode]

/-- Reading undoes writing. -/
theorem decode_encode (cs : List Char) : decode (encode cs) = cs := by
  induction cs with
  | nil => rfl
  | cons c cs ih =>
    show decode (String.utf8EncodeChar c ++ encode cs) = c :: cs
    rw [decode_encode_append, ih]

theorem encode_append (cs ds : List Char) : encode (cs ++ ds) = encode cs ++ encode ds :=
  List.flatMap_append

theorem bytesOf_append (s t : String) : bytesOf (s ++ t) = bytesOf s ++ bytesOf t := by
  rw [bytesOf, String.toList_append, encode_append]
  rfl

-- ---------------------------------------------------------------------------
-- Bytes below 128
-- ---------------------------------------------------------------------------

theorem toNat_of_mem_encodeChar (h : b ∈ String.utf8EncodeChar c) (hb : b.toNat < 128) :
    c.toNat = b.toNat := by
  have hv : c.val.toNat = c.toNat := rfl
  unfold String.utf8EncodeChar at h
  simp only [hv] at h
  split at h
  · rw [List.mem_singleton.mp h, toNat_byte (by omega)]
  -- The bytes of a longer sequence are all at least 128.
  all_goals exfalso
  split at h
  · simp only [List.mem_cons, List.not_mem_nil, or_false] at h
    rcases h with rfl | rfl <;> rw [toNat_byte (by omega)] at hb <;> omega
  split at h
  · simp only [List.mem_cons, List.not_mem_nil, or_false] at h
    rcases h with rfl | rfl | rfl <;> rw [toNat_byte (by omega)] at hb <;> omega
  · simp only [List.mem_cons, List.not_mem_nil, or_false] at h
    rcases h with rfl | rfl | rfl | rfl <;> rw [toNat_byte (by omega)] at hb <;> omega

theorem mem_of_mem_encode (h : b ∈ encode cs) (hb : b.toNat < 128) : Char.ofNat b.toNat ∈ cs := by
  obtain ⟨c, hc, hbc⟩ := List.mem_flatMap.mp h
  rw [← toNat_of_mem_encodeChar hbc hb, Char.ofNat_toNat]
  exact hc

theorem toNat_ofNat {n : Nat} (h : n < 0xD800 ∨ 0xE000 ≤ n ∧ n ≤ 0x10FFFF) :
    (Char.ofNat n).toNat = n := by
  have hn : n.isValidChar := by
    unfold Nat.isValidChar
    omega
  rw [Char.ofNat, dif_pos hn]
  rfl

theorem trailingBits_lt (b : UInt8) : trailingBits b < 128 := by
  have h := b.toNat_lt
  unfold trailingBits
  omega

/-- A character below 128 at the front is the first byte itself. -/
theorem toNat_of_frontChar? (h : frontChar? (a :: rest) = some (c, n)) (hc : c.toNat < 128) :
    a.toNat = c.toNat := by
  unfold frontChar? at h
  simp only [UInt8.lt_iff_toNat_lt, UInt8.reduceToNat] at h
  split at h
  next ha =>
    simp only [Option.some.injEq, Prod.mk.injEq] at h
    rw [← h.1, toNat_ofNat (by omega)]
  -- What takes more than one byte is at least 128.
  all_goals exfalso
  split at h
  · simp at h
  split at h
  · split at h
    · split at h
      next b _ _ =>
        simp only [Option.some.injEq, Prod.mk.injEq] at h
        have hb := trailingBits_lt b
        rw [← h.1, toNat_ofNat (by omega)] at hc
        omega
      · simp at h
    · simp at h
  split at h
  · split at h
    · split at h
      next b b' _ hn =>
        simp only [Bool.and_eq_true, Bool.or_eq_true, decide_eq_true_eq] at hn
        simp only [Option.some.injEq, Prod.mk.injEq] at h
        have hb := trailingBits_lt b
        have hb' := trailingBits_lt b'
        rw [← h.1, toNat_ofNat (by omega)] at hc
        omega
      · simp at h
    · simp at h
  · split at h
    · split at h
      next hn =>
        simp only [Bool.and_eq_true, decide_eq_true_eq] at hn
        simp only [Option.some.injEq, Prod.mk.injEq] at h
        rw [← h.1, toNat_ofNat (by omega)] at hc
        omega
      · simp at h
    · simp at h

theorem mem_of_mem_decodeFrom (h : c ∈ decodeFrom skip bs) (hc : c.toNat < 128) :
    UInt8.ofNat c.toNat ∈ bs := by
  induction bs generalizing skip with
  | nil => cases skip <;> simp [decodeFrom] at h
  | cons b bs ih =>
    cases skip with
    | succ skip => exact List.mem_cons_of_mem _ (ih h)
    | zero =>
      rw [decodeFrom] at h
      split at h
      next d n hd =>
        rcases List.mem_cons.mp h with rfl | h
        · rw [← toNat_of_frontChar? hd hc, UInt8.ofNat_toNat]
          exact List.mem_cons_self
        · exact List.mem_cons_of_mem _ (ih h)
      · rcases List.mem_cons.mp h with rfl | h
        · exact absurd hc (by decide)
        · exact List.mem_cons_of_mem _ (ih h)

-- ---------------------------------------------------------------------------
-- Order
-- ---------------------------------------------------------------------------

theorem byte_lt_iff {m n : Nat} (hm : m < 256) (hn : n < 256) :
    UInt8.ofNat m < UInt8.ofNat n ↔ m < n := by
  rw [UInt8.lt_iff_toNat_lt, toNat_byte hm, toNat_byte hn]

theorem byte_eq_iff {m n : Nat} (hm : m < 256) (hn : n < 256) :
    UInt8.ofNat m = UInt8.ofNat n ↔ m = n := by
  rw [← UInt8.toNat_inj, toNat_byte hm, toNat_byte hn]

/-- Numbers compare by their digits to the base 64, the last of which stands apart. -/
theorem lt_digits {m n : Nat} (h : m < n) :
    m / 64 < n / 64 ∨ m / 64 = n / 64 ∧ m % 64 < n % 64 := by
  omega

/-- The bytes of a smaller character come first, whatever follows. -/
theorem encodeChar_lt {c d : Char} (h : c < d) (cs ds : Bytes) :
    String.utf8EncodeChar c ++ cs < String.utf8EncodeChar d ++ ds := by
  have hlt : c.toNat < d.toNat := h
  have hc : c.val.toNat = c.toNat := rfl
  have hd : d.val.toNat = d.toNat := rfl
  have hbc := char_bounds c
  have hbd := char_bounds d
  have hdiv : ∀ n : Nat, n / 4096 = n / 64 / 64 ∧ n / 262144 = n / 64 / 64 / 64 := by
    intro n
    omega
  unfold String.utf8EncodeChar
  simp only [hc, hd, (hdiv _).1, (hdiv _).2]
  have h₁ := lt_digits hlt
  have h₂ : c.toNat / 64 < d.toNat / 64 → _ := lt_digits
  have h₃ : c.toNat / 64 / 64 < d.toNat / 64 / 64 → _ := lt_digits
  -- Characters of different lengths differ in the first byte already.
  repeat' split
  all_goals simp only [List.cons_append, List.cons_lt_cons_iff]
  all_goals simp (disch := omega) only [byte_lt_iff, byte_eq_iff]
  all_goals omega

theorem encode_lt {cs ds : List Char} (h : cs < ds) : encode cs < encode ds := by
  induction h with
  | @nil d ds =>
    show [] < String.utf8EncodeChar d ++ encode ds
    cases hd : String.utf8EncodeChar d with
    | nil => exact absurd hd String.utf8EncodeChar_ne_nil
    | cons b bs => exact .nil
  | rel hlt => exact encodeChar_lt hlt _ _
  | @cons c cs ds _ ih => exact List.append_left_lt ih

/-- Texts are ordered as their bytes are. -/
theorem bytesOf_lt {s t : String} (h : s < t) : bytesOf s < bytesOf t :=
  encode_lt (String.lt_iff.mp h)

end SplatLang.Text
