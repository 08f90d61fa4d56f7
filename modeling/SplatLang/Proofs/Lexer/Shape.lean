import SplatLang.Proofs.Utf8
import SplatLang.Token.Lexer

/-!
# The shape of tokens

What the text of a token looks like for each way of cutting one from a line. The text of a token
never holds a line feed, since a line does not.
-/

namespace SplatLang

namespace Lexer

/-- The texts that a token of a kind can have. -/
inductive Shape : TokenKind → List Char → Prop
  | string (inside : ∀ c ∈ cs, endsString c = false) : Shape .string ('"' :: (cs ++ ['"']))
  | word (name : ∀ d ∈ c :: cs, isNameChar d = true) : Shape (wordKind (c :: cs)) (c :: cs)
  | symbol (kind : symbolKind? c = some k) : Shape k [c]
  | pair (joins : joinsEquals c = true) : Shape .operator [c, '=']

theorem mem_takeWhile {p : Char → Bool} {cs : List Char} (h : c ∈ cs.takeWhile p) : p c = true :=
  List.all_eq_true.mp List.all_takeWhile c h

theorem symbolKind?_cases (h : symbolKind? c = some k) : k = .operator ∨ k = .delimiter := by
  unfold symbolKind? at h
  split at h
  · exact .inl (Option.some.inj h).symm
  split at h
  · exact .inr (Option.some.inj h).symm
  · simp at h

theorem wordKind_cases (cs : List Char) :
    wordKind cs = .int ∧ cs.all Char.isDigit = true ∨ wordKind cs = .keyword ∨
      wordKind cs = .ident := by
  unfold wordKind
  split
  next h => exact .inl ⟨rfl, h⟩
  split
  · exact .inr (.inl rfl)
  · exact .inr (.inr rfl)

theorem Shape.of_string (h : Shape k cs) (hk : k = .string) :
    ∃ inside, cs = '"' :: (inside ++ ['"']) ∧ ∀ c ∈ inside, endsString c = false := by
  cases h with
  | string inside => exact ⟨_, rfl, inside⟩
  | @word c cs _ => rcases wordKind_cases (c :: cs) with h | h | h <;> simp_all
  | symbol kind => rcases symbolKind?_cases kind with rfl | rfl <;> simp at hk
  | pair _ => simp at hk

theorem Shape.of_ident (h : Shape k cs) (hk : k = .ident) : ∀ c ∈ cs, isNameChar c = true := by
  cases h with
  | string _ => simp at hk
  | word name => exact name
  | symbol kind => rcases symbolKind?_cases kind with rfl | rfl <;> simp at hk
  | pair _ => simp at hk

theorem Shape.of_int (h : Shape k cs) (hk : k = .int) : cs ≠ [] ∧ cs.all Char.isDigit = true := by
  cases h with
  | string _ => simp at hk
  | @word c cs _ => rcases wordKind_cases (c :: cs) with h | h | h <;> simp_all
  | symbol kind => rcases symbolKind?_cases kind with rfl | rfl <;> simp at hk
  | pair _ => simp at hk

-- ---------------------------------------------------------------------------
-- Pieces
-- ---------------------------------------------------------------------------

/-- A piece is the front of its line, and a piece with a kind has the shape of that kind. -/
def Fits (p : Piece) (line : List Char) : Prop :=
  p.text ++ p.rest = line ∧ ∀ k, p.kind = some k → Shape k p.text

theorem cutString_fits (h : cutString cs = .ok p) : Fits p ('"' :: cs) := by
  unfold cutString at h
  split at h
  · simp at h
  next c rest hd =>
    split at h
    next hc =>
      simp only [Except.ok.injEq] at h
      subst h hc
      refine ⟨?_, ?_⟩
      · rw [List.append_assoc, List.singleton_append, List.cons_append, ← hd,
          List.takeWhile_append_dropWhile]
      · rintro k ⟨rfl⟩
        exact .string fun c hc => by simpa using mem_takeWhile hc
    · simp at h

theorem cutWord_fits (hc : isNameChar c = true) : Fits (cutWord c cs) (c :: cs) := by
  refine ⟨?_, ?_⟩
  · simp only [cutWord, List.cons_append, List.takeWhile_append_dropWhile]
  · rintro k ⟨rfl⟩
    exact .word (List.forall_mem_cons.mpr ⟨hc, fun _ => mem_takeWhile⟩)

theorem cutSymbol_fits (h : cutSymbol c cs = .ok p) : Fits p (c :: cs) := by
  unfold cutSymbol at h
  split at h
  · simp at h
  next kind hkind =>
    simp only [Except.ok.injEq] at h
    subst h
    refine ⟨rfl, ?_⟩
    rintro k ⟨rfl⟩
    exact .symbol hkind
  next kind d rest hkind =>
    split at h
    next hjoin =>
      simp only [Bool.and_eq_true, decide_eq_true_eq] at hjoin
      obtain ⟨rfl, hjoin⟩ := hjoin
      split at h
      · simp at h
      · simp only [Except.ok.injEq] at h
        subst h
        refine ⟨rfl, ?_⟩
        rintro k ⟨rfl⟩
        exact .pair hjoin
    · simp only [Except.ok.injEq] at h
      subst h
      refine ⟨rfl, ?_⟩
      rintro k ⟨rfl⟩
      exact .symbol hkind

theorem cut_fits (h : cut c cs = .ok p) : Fits p (c :: cs) := by
  unfold cut at h
  split at h
  · simp only [Except.ok.injEq] at h
    subst h
    exact ⟨rfl, by rintro k ⟨⟩⟩
  split at h
  next hq => exact hq ▸ cutString_fits h
  split at h
  next hname =>
    simp only [Except.ok.injEq] at h
    exact h ▸ cutWord_fits hname
  · exact cutSymbol_fits h

-- ---------------------------------------------------------------------------
-- Lines
-- ---------------------------------------------------------------------------

def Piece.tokens (p : Piece) (here : Position) : List Token :=
  match p.kind with
  | none => []
  | some kind => [⟨kind, String.ofList p.text, here⟩]

theorem lexLine_cons :
    lexLine file line offset (c :: cs) = .ok ts ↔
      ∃ p more, cut c cs = .ok p ∧
        lexLine file line (offset + p.text.length) p.rest = .ok more ∧
        ts = p.tokens ⟨line, offset + 1, file⟩ ++ more := by
  rw [lexLine]
  split
  next hcut => simp [hcut]
  next p hcut =>
    simp only [hcut, Except.ok.injEq]
    split
    next hrest => simp [hrest]
    next more hrest =>
      unfold Piece.tokens
      constructor
      · intro h
        refine ⟨p, more, rfl, hrest, ?_⟩
        split at h <;> simp_all
      · rintro ⟨_, _, rfl, hrest', rfl⟩
        rw [hrest] at hrest'
        cases hrest'
        cases p.kind <;> rfl

theorem lexLine_shape (h : lexLine file line offset cs = .ok ts) :
    ∀ t ∈ ts, Shape t.kind t.value.toList ∧ ∀ c ∈ t.value.toList, c ∈ cs := by
  -- The induction is on the length of the line, which every piece shortens.
  induction hn : cs.length using Nat.strongRecOn generalizing cs offset ts with
  | ind n ih =>
    cases cs with
    | nil =>
      rw [lexLine] at h
      cases h
      simp
    | cons c cs =>
      obtain ⟨p, more, hcut, hmore, rfl⟩ := lexLine_cons.mp h
      obtain ⟨hline, hshape⟩ := cut_fits hcut
      rw [← hline, List.forall_mem_append]
      refine ⟨?_, ?_⟩
      · intro t ht
        unfold Piece.tokens at ht
        split at ht
        · simp at ht
        next kind hkind =>
          rw [List.mem_singleton.mp ht]
          refine ⟨?_, ?_⟩
          · simpa using hshape kind hkind
          · simpa using fun c hc => Or.inl hc
      · intro t ht
        obtain ⟨hkind, hmem⟩ := ih _ (hn ▸ cut_rest_lt hcut) hmore rfl t ht
        exact ⟨hkind, fun c hc => List.mem_append_right _ (hmem c hc)⟩

end Lexer

structure Token.Genuine (t : Token) : Prop where
  shape : Lexer.Shape t.kind t.value.toList
  noFeed : '\n' ∉ t.value.toList

theorem Lexer.Shape.ne_nil (h : Lexer.Shape k cs) : cs ≠ [] := by
  cases h <;> exact List.cons_ne_nil _ _

theorem Token.Genuine.value_ne {t : Token} (h : t.Genuine) : t.value ≠ "" := by
  intro hv
  exact h.shape.ne_nil (by rw [hv, String.toList_empty])

namespace LineReader

variable {file : String} {count : Nat} {lines : List Text.Bytes}

theorem splitLines_noFeed (bytes : Text.Bytes) :
    (∀ line ∈ (splitLines bytes).1, lineFeed ∉ line) ∧ lineFeed ∉ (splitLines bytes).2 := by
  induction bytes with
  | nil => simp [splitLines]
  | cons b rest ih =>
    obtain ⟨lines, tail, hsplit⟩ : ∃ lines tail, splitLines rest = (lines, tail) := ⟨_, _, rfl⟩
    rw [hsplit] at ih
    obtain ⟨hlines, htail⟩ := ih
    rw [splitLines, hsplit]
    by_cases hb : b = lineFeed
    · simp only [hb, if_true]
      exact ⟨List.forall_mem_cons.mpr ⟨List.not_mem_nil, hlines⟩, htail⟩
    · simp only [hb, if_false]
      cases lines with
      | nil => simpa using ⟨Ne.symm hb, htail⟩
      | cons line lines =>
        rw [List.forall_mem_cons] at hlines
        simpa using ⟨⟨⟨Ne.symm hb, hlines.1⟩, hlines.2⟩, htail⟩

theorem mem_of_mem_dropCarriageReturn (h : b ∈ dropCarriageReturn line) : b ∈ line := by
  unfold dropCarriageReturn at h
  split at h
  · exact List.dropLast_subset _ h
  · exact h

theorem lexBytes_genuine (hline : lineFeed ∉ bytes) (h : lexBytes file n bytes = .ok ts) :
    ∀ t ∈ ts, t.Genuine := by
  intro t ht
  obtain ⟨hshape, hmem⟩ := Lexer.lexLine_shape h t ht
  refine ⟨hshape, fun hc => hline ?_⟩
  exact mem_of_mem_dropCarriageReturn (Text.mem_of_mem_decodeFrom (hmem _ hc) (by decide))

theorem lexLines_genuine (hlines : ∀ line ∈ lines, lineFeed ∉ line)
    (h : lexLines file count lines = (.ok ts, left)) : ∀ t ∈ ts, t.Genuine := by
  induction lines generalizing count ts with
  | nil =>
    simp only [lexLines, Prod.mk.injEq, Except.ok.injEq] at h
    simp [← h.1]
  | cons line lines ih =>
    rw [List.forall_mem_cons] at hlines
    rw [lexLines] at h
    split at h
    · simp at h
    next here hhere =>
      split at h
      next more left' hmore =>
        simp only [Prod.mk.injEq, Except.ok.injEq] at h
        obtain ⟨rfl, rfl⟩ := h
        exact List.forall_mem_append.mpr ⟨lexBytes_genuine hlines.1 hhere, ih hlines.2 hmore⟩
      · simp at h

theorem tokens_genuine {r : LineReader} (hlines : ∀ line ∈ r.lines, lineFeed ∉ line)
    (htail : lineFeed ∉ r.tail) (h : r.tokens.1 = .ok ts) : ∀ t ∈ ts, t.Genuine := by
  unfold tokens at h
  split at h
  · simp at h
  next here n left hhere =>
    split at h
    · simp at h
    split at h
    · simp only [Except.ok.injEq] at h
      exact h ▸ lexLines_genuine hlines hhere
    · simp only at h
      split at h
      · simp at h
      next more hmore =>
        simp only [Except.ok.injEq] at h
        subst h
        exact List.forall_mem_append.mpr
          ⟨lexLines_genuine hlines hhere, lexBytes_genuine htail hmore⟩

end LineReader

/-- Every token of a source can be cut from a line. -/
theorem tokenize_genuine (h : tokenize file src = .ok ts) : ∀ t ∈ ts, t.Genuine := by
  obtain ⟨hlines, htail⟩ := LineReader.splitLines_noFeed src.bytes
  exact LineReader.tokens_genuine hlines htail h

end SplatLang
