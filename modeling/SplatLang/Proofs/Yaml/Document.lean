import SplatLang.Proofs.Yaml.Fields

/-!
# Documents that were written are read back

The reader makes one entry of each field, in order, and the bytes of a written document hold
nothing that a reader of bytes would change. So reading gives back what was written.
-/

namespace SplatLang.Yaml

mutual

def Field.entry : Field → Yaml × Yaml
  | .text key value =>
    (Yaml.scalar "" true key, Yaml.scalar "" (styleOf value = .plain) value)
  | .word key value => (Yaml.scalar "" true key, Yaml.scalar "" true value)
  | .group key fields => (Yaml.scalar "" true key, Yaml.mapping (fieldEntries fields))

def fieldEntries : List Field → List (Yaml × Yaml)
  | [] => []
  | f :: fs => f.entry :: fieldEntries fs

end

namespace Reader

variable {handles : List (String × String)} {anchors : List (String × Option Yaml)}
  {ts : List Token}

theorem pure_apply (a : α) (r : Reading) : (pure a : Reader α) r = some (a, r) := rfl

theorem bind_apply (x : Reader α) (f : α → Reader β) (r : Reading) :
    (x >>= f) r = (x r).bind fun (a, r') => f a r' := rfl

theorem map_apply (f : α → β) (x : Reader α) (r : Reading) :
    (f <$> x) r = (x r).bind fun (a, r') => some (f a, r') := rfl

theorem node_scalar (n : Nat) (block atKey plain : Bool) (text : String) :
    node handles (n + 1) block atKey ⟨.scalar plain text :: ts, anchors⟩ =
      some (Yaml.scalar "" plain text, ⟨ts, anchors⟩) := by
  simp [node, peek, advance, properties, anchor, tag, bindAnchor, bind_apply, pure_apply, map_apply]

theorem node_mapping (n : Nat) (atKey : Bool)
    (h : blockEntries handles n ⟨ts, anchors⟩ = some (entries, ⟨ts', anchors⟩)) :
    node handles (n + 1) true atKey ⟨.blockMapping :: ts, anchors⟩ =
      some (Yaml.mapping entries, ⟨ts', anchors⟩) := by
  simp [node, peek, advance, properties, anchor, tag, bindAnchor, bind_apply, pure_apply, map_apply,
    collection, closeAnchor, h]

theorem blockEntries_end (n : Nat) :
    blockEntries handles (n + 1) ⟨.blockEnd :: ts, anchors⟩ = some ([], ⟨ts, anchors⟩) := by
  simp [blockEntries, next, peek, advance, bind_apply, pure_apply, map_apply]

theorem blockEntries_field (n : Nat) (key : String)
    (ht : t ∉ [.key, .value, .blockEnd, .invalid])
    (hvalue : node handles (n + 1) true true ⟨t :: ts, anchors⟩ = some (value, ⟨ts', anchors⟩))
    (hrest : blockEntries handles (n + 1) ⟨ts', anchors⟩ = some (entries, r)) :
    blockEntries handles (n + 2) ⟨.key :: .scalar true key :: .value :: t :: ts, anchors⟩ =
      some ((Yaml.scalar "" true key, value) :: entries, r) := by
  simp only [List.mem_cons, List.not_mem_nil, or_false, not_or] at ht
  rw [blockEntries]
  simp [next, peek, advance, bind_apply, map_apply, orNull, nextIn, valueOrNull, accept,
    node_scalar, hvalue, hrest, ht]

theorem tokens_eq (f : Field) :
    ∃ key t ts, f.tokens = .key :: .scalar true key :: .value :: t :: ts ∧
      f.entry.1 = Yaml.scalar "" true key ∧ t ∉ [.key, .value, .blockEnd, .invalid] := by
  cases f <;> exact ⟨_, _, _, rfl, rfl, by simp⟩

/-! Every step takes a token, so as many steps as there are tokens are enough. -/

mutual

theorem node_value : (f : Field) → (n : Nat) → (f.tokens.drop 3).length < n → (ts : List Token) →
    node handles n true true ⟨f.tokens.drop 3 ++ ts, anchors⟩ = some (f.entry.2, ⟨ts, anchors⟩)
  | .text _ value, n + 1, _, ts => node_scalar n true true _ value
  | .word _ value, n + 1, _, ts => node_scalar n true true true value
  | .group key fields, n + 1, h, ts => by
    have hlen : (fieldTokens fields).length < n := by
      simp only [Field.tokens, List.length_drop, List.length_append, List.length_cons,
        List.length_nil] at h
      omega
    have hnode := node_mapping n true (blockEntries_fields fields n hlen ts)
    simpa [Field.tokens, Field.entry] using hnode

theorem blockEntries_fields : (fs : List Field) → (n : Nat) → (fieldTokens fs).length < n →
    (ts : List Token) →
    blockEntries handles n ⟨fieldTokens fs ++ .blockEnd :: ts, anchors⟩ =
      some (fieldEntries fs, ⟨ts, anchors⟩)
  | [], n + 1, _, ts => blockEntries_end n
  | f :: fs, n + 1, h, ts => by
    obtain ⟨key, t, more, htokens, hkey, ht⟩ := tokens_eq f
    rw [fieldTokens, List.length_append] at h
    have hlong : 4 ≤ f.tokens.length := by simp [htokens]
    obtain ⟨n, rfl⟩ : ∃ m, n = m + 1 := ⟨n - 1, by omega⟩
    have hvalue := node_value f (n + 1) (by rw [List.length_drop]; omega)
      (fieldTokens fs ++ .blockEnd :: ts)
    have hrest := blockEntries_fields fs (n + 1) (by omega) ts
    rw [htokens] at hvalue
    have hfield := blockEntries_field n key ht hvalue hrest
    rw [← hkey] at hfield
    simpa [fieldTokens, fieldEntries, htokens] using hfield

end

theorem document_fields (fs : List Field) (h : (fieldTokens fs).length + 1 < n) :
    document n ⟨.blockMapping :: fieldTokens fs ++ [.blockEnd, .streamEnd], []⟩ =
      some (some ⟨Yaml.mapping (fieldEntries fs), []⟩, ⟨[.streamEnd], []⟩) := by
  obtain ⟨n, rfl⟩ : ∃ m, n = m + 1 := ⟨n - 1, by omega⟩
  have hentries := @blockEntries_fields standardHandles [] fs n (by omega) [.streamEnd]
  have hnode := node_mapping n false hentries
  have hget (r : Reading) : (get : Reader Reading) r = some (r, r) := rfl
  simp [document, root, peek, bind_apply, map_apply, hnode, hget]

end Reader

-- ---------------------------------------------------------------------------
-- Bytes
-- ---------------------------------------------------------------------------

theorem le_of_isWordChar (h : isWordChar d = true) : ' ' ≤ d ∧ d ≤ '~' := by
  have hrange {low high : Char} (h : low ≤ d ∧ d ≤ high) (hlow : ' ' ≤ low) (hhigh : high ≤ '~') :
      ' ' ≤ d ∧ d ≤ '~' :=
    ⟨UInt32.le_trans hlow h.1, UInt32.le_trans h.2 hhigh⟩
  have hboth {p q : Prop} [Decidable p] [Decidable q] (h : (decide p && decide q) = true) :
      p ∧ q := by simpa using h
  simp only [isWordChar, Bool.or_eq_true, decide_eq_true_eq] at h
  rcases h with (h | rfl) | rfl
  · rcases Bool.or_eq_true_iff.mp h with h | hdigit
    · rcases Bool.or_eq_true_iff.mp h with hupper | hlower
      · exact hrange (of_decide_eq_true hupper) (by decide) (by decide)
      · exact hrange (hboth hlower) (by decide) (by decide)
    · exact hrange (hboth hdigit) (by decide) (by decide)
  · decide
  · decide

theorem shown_of_isWordChar (h : isWordChar d = true) : isShown d = true := by
  simp [isShown, le_of_isWordChar h]

theorem shown_writeFields : (i : Nat) → (fs : List Field) → ProperFields fs →
    Shown (writeFields i fs)
  | _, [], _ => by simp [writeFields, Shown]
  | i, .text key value :: fs, h => by
    rw [Lexer.writeFields_cons, Lexer.writeFields_text]
    refine .append (.append (.blanks i) (.append ?_ ?_)) (shown_writeFields i fs h.2)
    · exact fun d hd => shown_of_isWordChar (h.1.chars d hd)
    · exact .cons (by decide) (.cons (by decide) (.writeValue _ _ _))
  | i, .word key value :: fs, h => by
    rw [Lexer.writeFields_cons, Lexer.writeFields_word]
    refine .append (.append (.blanks i) (.append ?_ ?_)) (shown_writeFields i fs h.2)
    · exact fun d hd => shown_of_isWordChar (h.1.1.chars d hd)
    · refine .cons (by decide) (.cons (by decide) (.append ?_ (.cons (by decide) .nil)))
      exact fun d hd => shown_of_isWordChar (h.1.2.1 d hd)
  | i, .group key fields :: fs, h => by
    obtain ⟨⟨hkey, hne, hfields⟩, hfs⟩ := h
    rw [Lexer.writeFields_cons, Lexer.writeFields_group i key hne]
    refine .append (.append (.blanks i) (.append ?_ ?_)) (shown_writeFields i fs hfs)
    · exact fun d hd => shown_of_isWordChar (hkey.chars d hd)
    · exact .cons (by decide) (.cons (by decide) (shown_writeFields (i + 2) fields hfields))

theorem isAllowed_of_shown (h : isShown d = true) :
    isAllowed d = true ∧ d ≠ '\r' ∧ d ≠ '\u0085' := by
  refine ⟨?_, ?_, ?_⟩
  · simp only [isShown, Bool.or_eq_true, Bool.and_eq_true, decide_eq_true_eq] at h
    simp only [isAllowed, Bool.or_eq_true, Bool.and_eq_true, decide_eq_true_eq]
    tauto
  · rintro rfl
    exact absurd h (by decide)
  · rintro rfl
    exact absurd h (by decide)

theorem unifyBreaks_eq (h : ∀ d ∈ cs, d ≠ '\r' ∧ d ≠ '\u0085') : unifyBreaks cs = cs := by
  induction cs with
  | nil => rfl
  | cons c cs ih =>
    rw [List.forall_mem_cons] at h
    have hc := h.1
    rw [unifyBreaks]
    · simp [hc, ih h.2]
    · rintro rest rfl
      exact absurd rfl hc.1

/-- A text that begins with an ASCII character has no mark of its encoding. -/
theorem ofBytes_encode (h : Shown (c :: cs)) (hc : c.toNat < 128) :
    Source.ofBytes (Text.encode (c :: cs)) = ⟨c :: cs, true⟩ := by
  have hbytes : Text.encode (c :: cs) = UInt8.ofNat c.toNat :: Text.encode cs := by
    have hchar : String.utf8EncodeChar c = [UInt8.ofNat c.toNat] :=
      if_pos (Nat.le_of_lt_succ hc)
    rw [Text.encode, List.flatMap_cons, hchar]
    rfl
  have hdecode : decodeUtf8? (Text.encode (c :: cs)) = some (c :: cs) := by
    rw [decodeUtf8?, Text.decode_encode]
    exact if_pos ⟨rfl, List.all_eq_true.mpr fun d hd => (isAllowed_of_shown (h d hd)).1⟩
  have hsource : Source.ofBytes (Text.encode (c :: cs)) = utf8Source 0 (Text.encode (c :: cs)) := by
    rw [hbytes]
    have hfirst : (UInt8.ofNat c.toNat).toNat < 128 := by
      rwa [Text.toNat_byte (by omega)]
    have hne (b : UInt8) (hb : 128 ≤ b.toNat) : UInt8.ofNat c.toNat ≠ b := by
      rintro rfl
      omega
    unfold Source.ofBytes
    split
    next heq => exact absurd (List.cons.inj heq).1 (hne _ (by decide))
    next heq => exact absurd (List.cons.inj heq).1 (hne _ (by decide))
    next heq => exact absurd (List.cons.inj heq).1 (hne _ (by decide))
    next => rfl
  rw [hsource, utf8Source, hdecode]
  simp only [unifyBreaks_eq fun d hd => (isAllowed_of_shown (h d hd)).2]

/-- A written document is read back. -/
theorem read_write (h : ProperFields fs) (hne : fs ≠ []) :
    read (Text.bytesOf (write fs)) = some (some ⟨Yaml.mapping (fieldEntries fs), []⟩) := by
  have hshown := shown_writeFields 0 fs h
  obtain ⟨d, rest, htext, hd⟩ : ∃ d rest, writeFields 0 fs = d :: rest ∧ d.toNat < 128 := by
    obtain ⟨f, fs, rfl⟩ := List.exists_cons_of_ne_nil hne
    obtain ⟨key, more, hkey, htext⟩ := Lexer.writeFields_key h.1 0 fs
    obtain ⟨d, key, rfl, -⟩ := hkey.front
    have hd : d.toNat ≤ '~'.toNat := (le_of_isWordChar (hkey.chars d List.mem_cons_self)).2
    exact ⟨d, key ++ more, htext, Nat.lt_of_le_of_lt hd (by decide)⟩
  have hsource : Source.ofBytes (Text.bytesOf (write fs)) = ⟨writeFields 0 fs, true⟩ := by
    rw [Text.bytesOf, write, String.toList_ofList, htext]
    rw [htext] at hshown
    exact ofBytes_encode hshown hd
  have hsound : Source.Sound ⟨writeFields 0 fs, true⟩ := by
    refine ⟨rfl, fun hmark => ?_⟩
    exact absurd (hshown _ (List.mem_of_mem_head? hmark)) (by decide)
  have htokens := tokens_writeFields hsound h hne rfl
  have hlong : (fieldTokens fs).length + 1 <
      2 * (Source.tokens ⟨writeFields 0 fs, true⟩).length + 1 := by
    rw [htokens]
    simp only [List.length_append, List.length_cons]
    omega
  have hdocument := Reader.document_fields fs hlong
  rw [read, hsource]
  rw [← htokens] at hdocument
  simp [StateT.run, hdocument]

end SplatLang.Yaml
