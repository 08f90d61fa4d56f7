import SplatLang.Program.Parser
import SplatLang.Proofs.Parser.Grammar

/-!
# Laws of parsers

What success of a parser says, primitive by primitive, and the two halves of exactness for the
parsers of lists. A parser is `Sound` for a phrase if the tokens it takes derive what it returns,
and `Complete` if it takes every derivation up to a given length, tokens apart, whatever follows
within the limits of its lookahead.
-/

namespace SplatLang.Parser

open Grammar

variable {α β : Type} {eof : Position} {t : Token} {ts rest us : List Token}

-- ---------------------------------------------------------------------------
-- Success
-- ---------------------------------------------------------------------------

theorem bind_ok {p : Parser α} {f : α → Parser β} :
    (p >>= f) eof ts = .ok b rest ↔ ∃ a mid, p eof ts = .ok a mid ∧ f a eof mid = .ok b rest := by
  show Parser.bind p f eof ts = _ ↔ _
  cases hp : p eof ts <;> simp [Parser.bind, hp, and_assoc]

theorem bind_of_ok {p : Parser α} {f : α → Parser β} (h : p eof ts = .ok a mid) :
    (p >>= f) eof ts = f a eof mid := by
  show Parser.bind p f eof ts = _
  simp only [Parser.bind, h]

theorem pure_ok {a : α} : (pure a : Parser α) eof ts = .ok b rest ↔ a = b ∧ ts = rest := by
  show Parsed.ok a ts = _ ↔ _
  simp only [Parsed.ok.injEq]

@[simp] theorem pure_apply (a : α) : (pure a : Parser α) eof ts = .ok a ts := rfl

theorem fail_ok : ¬ (fail cause location : Parser α) eof ts = .ok b rest := by simp [fail]

theorem giveUp_ok : ¬ (giveUp why : Parser α) eof ts = .ok b rest := by simp [giveUp]

theorem peek_ok : peek eof ts = .ok t rest ↔ ts = rest ∧ ∃ more, ts = t :: more := by
  cases ts <;> simp [peek, eq_comm, and_comm]

theorem next_ok : next eof ts = .ok t rest ↔ ts = t :: rest := by
  cases ts <;> simp [next]

theorem expect_ok : expect v eof ts = .ok t rest ↔ ts = t :: rest ∧ t.value = v := by
  simp only [expect, bind_ok, next_ok]
  constructor
  · rintro ⟨u, mid, rfl, h⟩
    split at h
    · obtain ⟨rfl, rfl⟩ := pure_ok.mp h
      exact ⟨rfl, ‹_›⟩
    · exact absurd h fail_ok
  · rintro ⟨rfl, hv⟩
    exact ⟨t, rest, rfl, by simp [hv]⟩

theorem label_ok : label eof ts = .ok t rest ↔ ts = t :: rest ∧ IsLabel t := by
  simp only [label, bind_ok, next_ok]
  constructor
  · rintro ⟨u, mid, rfl, h⟩
    split at h
    · exact absurd h fail_ok
    next hk =>
    split at h
    · exact absurd h fail_ok
    cases hc : u.value.toList with
    | nil =>
      rw [hc] at h
      exact absurd h giveUp_ok
    | cons c cs =>
      rw [hc] at h
      simp only at h
      split at h
      next hi =>
        obtain ⟨rfl, rfl⟩ := pure_ok.mp h
        exact ⟨rfl, hi.1, by simpa using hk, c, cs, hc, hi.2⟩
      · exact absurd h fail_ok
  · rintro ⟨rfl, hi, hk, c, cs, hc, hl⟩
    refine ⟨t, rest, rfl, ?_⟩
    simp [hi, hk, hc, hl]

theorem typeName_ok : typeName eof ts = .ok ty rest ↔ ∃ t, ts = t :: rest ∧ ty = ⟨t.value⟩ := by
  simp only [typeName, bind_ok, next_ok, pure_ok]
  constructor
  · rintro ⟨t, mid, rfl, rfl, rfl⟩
    exact ⟨t, rfl, rfl⟩
  · rintro ⟨t, rfl, rfl⟩
    exact ⟨t, rest, rfl, rfl, rfl⟩

def begins (v : String) (ts : List Token) : Bool := ts.head?.any (·.value = v)

@[simp] theorem begins_cons : begins v (t :: ts) = decide (t.value = v) := by simp [begins]

theorem begins_iff : begins v ts = true ↔ ∃ t more, ts = t :: more ∧ t.value = v := by
  cases ts <;> simp [begins]

theorem nextIs_apply : nextIs v eof ts = .ok (begins v ts) ts := rfl

theorem secondIs_apply : secondIs v eof ts = .ok (begins v ts.tail) ts := rfl

theorem atEnd_apply : atEnd eof ts = .ok ts.isEmpty ts := rfl

def Looks (p : Parser α) : Prop := ∀ {eof ts a rest}, p eof ts = .ok a rest → ts = rest

theorem nextIs_looks : Looks (nextIs v) := by
  intro eof ts a rest h
  rw [nextIs_apply, Parsed.ok.injEq] at h
  exact h.2

theorem secondIs_looks : Looks (secondIs v) := by
  intro eof ts a rest h
  rw [secondIs_apply, Parsed.ok.injEq] at h
  exact h.2

theorem atEnd_looks : Looks atEnd := by
  intro eof ts a rest h
  rw [atEnd_apply, Parsed.ok.injEq] at h
  exact h.2

theorem nextIsUnary_looks : Looks nextIsUnary := by
  intro eof ts a rest h
  simp only [nextIsUnary, Parsed.ok.injEq] at h
  exact h.2

theorem pure_looks (a : α) : Looks (pure a) := fun h => (pure_ok.mp h).2

theorem blockEnds_looks : Looks blockEnds := by
  intro eof ts a rest h
  obtain ⟨_, mid, hend, h⟩ := bind_ok.mp h
  obtain rfl := atEnd_looks hend
  split at h
  · exact pure_looks _ h
  obtain ⟨_, mid, hnext, h⟩ := bind_ok.mp h
  obtain rfl := nextIs_looks hnext
  split at h
  · exact pure_looks _ h
  · exact nextIs_looks h

theorem expect_cons (h : t.value = v) : expect v eof (t :: ts) = .ok t ts :=
  expect_ok.mpr ⟨rfl, h⟩

-- ---------------------------------------------------------------------------
-- Exactness of lists
-- ---------------------------------------------------------------------------

/-- What the parser takes derives what it returns. -/
def Sound (p : Parser α) (P : List Token → α → Prop) : Prop :=
  ∀ {eof ts x rest}, p eof ts = .ok x rest → ∃ us, ts = us ++ rest ∧ P us x

def KeepsQuote (t : Token) : Prop := t.kind = .string → t.value.toList.head? = some '"'

/-- The parser takes every derivation of at most `n` tokens, and returns what was derived up to
`erase`, if what comes behind is fit to follow. -/
def Complete (p : Parser α) (n : Nat) (follow : List Token → Prop) (erase : α → α)
    (P : List Token → α → Prop) : Prop :=
  ∀ eof us y rest, P us y → (∀ t ∈ us, KeepsQuote t) → us.length ≤ n → follow rest →
    ∃ x, p eof (us ++ rest) = .ok x rest ∧ erase x = y

theorem itemsUntil_sound {stop : Parser Bool} {item : Parser α} (hstop : Looks stop)
    (hitem : Sound item P) (n : Nat) : Sound (itemsUntil stop item n) (Repeated P) := by
  induction n with
  | zero => exact fun h => absurd h giveUp_ok
  | succ n ih =>
    intro eof ts xs rest h
    obtain ⟨_, mid, hlook, h⟩ := bind_ok.mp h
    obtain rfl := hstop hlook
    split at h
    · obtain ⟨rfl, rfl⟩ := pure_ok.mp h
      exact ⟨[], rfl, .nil⟩
    · simp only [bind_ok, pure_ok] at h
      obtain ⟨x, mid, hx, xs, mid', hxs, rfl, rfl⟩ := h
      obtain ⟨us, rfl, head⟩ := hitem hx
      obtain ⟨vs, rfl, tail⟩ := ih hxs
      exact ⟨us ++ vs, by simp, .cons head tail⟩

theorem moreItems_sound {item : Parser α} (hitem : Sound item P) (n : Nat) :
    Sound (moreItems item n) (Further P) := by
  induction n with
  | zero => exact fun h => absurd h giveUp_ok
  | succ n ih =>
    intro eof ts xs rest h
    obtain ⟨_, mid, hlook, h⟩ := bind_ok.mp h
    obtain rfl := nextIs_looks hlook
    split at h
    · simp only [bind_ok, expect_ok, pure_ok] at h
      obtain ⟨c, mid, ⟨rfl, comma⟩, x, mid', hx, xs, mid'', hxs, rfl, rfl⟩ := h
      obtain ⟨us, rfl, head⟩ := hitem hx
      obtain ⟨vs, rfl, tail⟩ := ih hxs
      exact ⟨c :: us ++ vs, by simp, .cons comma head tail⟩
    · obtain ⟨rfl, rfl⟩ := pure_ok.mp h
      exact ⟨[], rfl, .nil⟩

theorem commaItems_sound {item : Parser α} (hitem : Sound item P) (n : Nat) :
    Sound (commaItems item n) (Separated P) := by
  intro eof ts xs rest h
  obtain ⟨_, mid, hlook, h⟩ := bind_ok.mp h
  obtain rfl := nextIs_looks hlook
  split at h
  · obtain ⟨rfl, rfl⟩ := pure_ok.mp h
    exact ⟨[], rfl, .none⟩
  · simp only [bind_ok, pure_ok] at h
    obtain ⟨x, mid, hx, xs, mid', hxs, rfl, rfl⟩ := h
    obtain ⟨us, rfl, head⟩ := hitem hx
    obtain ⟨vs, rfl, tail⟩ := moreItems_sound hitem n hxs
    exact ⟨us ++ vs, by simp, .some head tail⟩

theorem itemsUntil_complete {stop : Parser Bool} {item : Parser α} {P : List Token → α → Prop}
    (hitem : Complete item n (fun _ => True) erase P)
    (hgo : ∀ eof us y rest, P us y → us ≠ [] ∧ stop eof (us ++ rest) = .ok false (us ++ rest))
    (hk : k ≤ n) (hm : k < m) :
    Complete (itemsUntil stop item m) k (fun rest => ∀ eof, stop eof rest = .ok true rest)
      (List.map erase) (Repeated P) := by
  -- The induction is on the derivation. Items are not empty, so the allowance of steps, which
  -- is above the number of tokens left, never runs out.
  intro eof us ys rest h hq hlen hstop
  induction h generalizing k m with
  | nil =>
    obtain ⟨m, rfl⟩ := Nat.exists_eq_add_of_lt hm
    refine ⟨[], ?_, rfl⟩
    rw [itemsUntil, List.nil_append, bind_of_ok (hstop eof)]
    rfl
  | @cons us y vs ys head tail ih =>
    obtain ⟨hne, hlook⟩ := hgo eof us y (vs ++ rest) head
    have hpos := List.length_pos_iff.mpr hne
    obtain ⟨m, rfl⟩ : ∃ m', m = m' + 1 := ⟨m - 1, by omega⟩
    simp only [List.length_append] at hlen
    rw [List.forall_mem_append] at hq
    obtain ⟨x, hx, rfl⟩ := hitem eof us y (vs ++ rest) head hq.1 (by omega) trivial
    obtain ⟨xs, hxs, rfl⟩ := @ih vs.length m (by omega) (by omega) hq.2 (Nat.le_refl _)
    refine ⟨x :: xs, ?_, rfl⟩
    rw [List.append_assoc, itemsUntil, bind_of_ok hlook]
    simp only [Bool.false_eq_true, if_false]
    rw [bind_of_ok hx, bind_of_ok hxs, pure_apply]

/-- What comes behind an item of a list is a comma or the parenthesis that closes the list. -/
theorem further_follow {P : List Token → α → Prop} {follow : List Token → Prop}
    (h : Further P us ys) (hfollow : ∀ c ts, c.value = "," ∨ c.value = ")" → follow (c :: ts))
    (hclose : begins ")" rest) : follow (us ++ rest) := by
  cases h with
  | nil =>
    obtain ⟨c, ts, rfl, hc⟩ := begins_iff.mp hclose
    exact hfollow c ts (.inr hc)
  | cons comma _ _ => exact hfollow _ _ (.inl comma)

theorem moreItems_complete {item : Parser α} {P : List Token → α → Prop}
    (hitem : Complete item n follow erase P)
    (hfollow : ∀ c ts, c.value = "," ∨ c.value = ")" → follow (c :: ts))
    (hk : k ≤ n) (hm : k < m) :
    Complete (moreItems item m) k (begins ")" ·) (List.map erase) (Further P) := by
  intro eof us ys rest h hq hlen hclose
  induction h generalizing k m with
  | nil =>
    obtain ⟨c, ts, rfl, hc⟩ := begins_iff.mp hclose
    obtain ⟨m, rfl⟩ := Nat.exists_eq_add_of_lt hm
    refine ⟨[], ?_, rfl⟩
    rw [moreItems, List.nil_append, bind_of_ok nextIs_apply]
    simp [hc]
  | @cons us y vs ys d comma head tail ih =>
    obtain ⟨m, rfl⟩ : ∃ m', m = m' + 1 := ⟨m - 1, by omega⟩
    simp only [List.length_append, List.length_cons] at hlen
    simp only [List.cons_append, List.forall_mem_cons, List.forall_mem_append] at hq
    obtain ⟨x, hx, rfl⟩ := hitem eof us y (vs ++ rest) head hq.2.1 (by omega)
      (further_follow tail hfollow hclose)
    obtain ⟨xs, hxs, rfl⟩ := @ih vs.length m (by omega) (by omega) hq.2.2 (Nat.le_refl _)
    refine ⟨x :: xs, ?_, rfl⟩
    rw [List.cons_append, List.cons_append, List.append_assoc, moreItems,
      bind_of_ok nextIs_apply]
    simp only [begins_cons, comma, decide_true, if_true]
    rw [bind_of_ok (expect_cons comma), bind_of_ok hx, bind_of_ok hxs, pure_apply]

theorem commaItems_complete {item : Parser α} {P : List Token → α → Prop}
    (hitem : Complete item n follow erase P)
    (hfollow : ∀ c ts, c.value = "," ∨ c.value = ")" → follow (c :: ts))
    (hgo : ∀ us y rest, P us y → (∀ t ∈ us, KeepsQuote t) → begins ")" (us ++ rest) = false)
    (hk : k ≤ n) (hm : k < m) :
    Complete (commaItems item m) k (begins ")" ·) (List.map erase) (Separated P) := by
  intro eof us ys rest h hq hlen hclose
  cases h with
  | none =>
    refine ⟨[], ?_, rfl⟩
    rw [commaItems, List.nil_append, bind_of_ok nextIs_apply]
    simp [hclose]
  | @some us y vs ys head tail =>
    simp only [List.length_append] at hlen
    rw [List.forall_mem_append] at hq
    obtain ⟨xs, hxs, rfl⟩ :=
      moreItems_complete hitem hfollow hk hm eof vs ys rest tail hq.2
        (by omega) hclose
    obtain ⟨x, hx, rfl⟩ := hitem eof us y (vs ++ rest) head hq.1 (by omega)
      (further_follow tail hfollow hclose)
    refine ⟨x :: xs, ?_, rfl⟩
    rw [List.append_assoc, commaItems, bind_of_ok nextIs_apply, hgo _ _ _ head hq.1]
    simp only [Bool.false_eq_true, if_false]
    rw [bind_of_ok hx, bind_of_ok hxs, pure_apply]

end SplatLang.Parser
