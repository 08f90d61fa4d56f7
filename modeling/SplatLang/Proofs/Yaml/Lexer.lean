import Mathlib.Logic.Relation
import SplatLang.Proofs.Yaml.Style

/-!
# Keys and values in the text of a document

Between two fields the lexer holds no candidate, so its state is a place, the columns of the open
blocks and the tokens so far. A key takes two steps, because only the colon behind a word makes a
key of it; a value on the same line takes one. Blocks end late: those to the right of the next
token are still open before it.
-/

namespace SplatLang.Yaml

-- ---------------------------------------------------------------------------
-- Steps
-- ---------------------------------------------------------------------------

def Source.Sound (s : Source) : Prop := s.whole = true ∧ s.text.head? ≠ some '\uFEFF'

namespace Lexer

variable {s : Source} {l : Lexer} {c : Cursor}

/-- One step that reads something before the end. -/
structure Advances (s : Source) (l next : Lexer) : Prop where
  fresh : l.dropStale? = some l
  step : l.step? s = some next
  goesOn : next.tokens.head? ≠ some .streamEnd
  shorter : next.cursor.rest.length < l.cursor.rest.length

theorem run_advances (h : Relation.ReflTransGen (Advances s) l last)
    (hn : l.cursor.rest.length < n) :
    ∃ m, last.cursor.rest.length < m ∧ run s n l = run s m last := by
  induction h using Relation.ReflTransGen.head_induction_on generalizing n with
  | refl => exact ⟨n, hn, rfl⟩
  | head hstep _ ih =>
    obtain ⟨n, rfl⟩ := Nat.exists_eq_succ_of_ne_zero (Nat.ne_of_gt (Nat.zero_lt_of_lt hn))
    obtain ⟨m, hm, hrun⟩ := @ih n (Nat.lt_of_lt_of_le hstep.shorter (Nat.le_of_lt_succ hn))
    refine ⟨m, hm, ?_⟩
    rw [run, hstep.fresh]
    simp only [hstep.step, if_neg hstep.goesOn, hrun]

theorem dropStale?_eq (houter : l.outer = [])
    (hcandidate : ∀ k ∈ l.candidate, Candidate.isStale l.cursor k = false) :
    l.dropStale? = some l := by
  have hforget : forgetStale? l.cursor l.candidate = some l.candidate := by
    rw [forgetStale?, if_neg]
    cases hk : l.candidate with
    | none => simp
    | some k => simp [hcandidate k hk]
  cases l
  simp only at houter
  subst houter
  simp_all [dropStale?]

/-- A step goes to the next token, ends the blocks to the right of it and fetches it. -/
theorem step?_eq (hs : s.Sound) (houter : l.outer = [])
    (htoken : toToken false false (l.cursor.rest.length + 1) l.keyAllowed l.cursor = (allowed, c))
    (hcandidate : ∀ k ∈ l.candidate, Candidate.isStale c k = false) :
    l.step? s =
      ({ l with keyAllowed := allowed, cursor := c }.closeBlocks (c.column + 1)).fetch? := by
  have hflow : l.inFlow = false := by simp [inFlow, houter]
  have hfresh := @dropStale?_eq { l with keyAllowed := allowed, cursor := c } houter hcandidate
  have hreadable (n : Nat) (l : Lexer) : l.isReadable s n = true := by simp [isReadable, hs.1]
  rw [step?]
  simp only [hs.2, decide_false, hflow, htoken, hfresh, hreadable, if_true, Option.bind_eq_bind,
    Option.bind_some]
  exact Option.bind_fun_some _

def between (c : Cursor) (columns : List Nat) (keyAllowed : Bool) (tokens : List Token) : Lexer :=
  ⟨c, columns, none, [], keyAllowed, tokens, tokens.length⟩

theorem closeBlocks_between {extra columns : List Nat} (hextra : ∀ e ∈ extra, least ≤ e)
    (hcolumns : ∀ e ∈ columns.head?, e < least) (c : Cursor) (keyAllowed : Bool)
    (tokens : List Token) :
    (between c (extra ++ columns) keyAllowed tokens).closeBlocks least =
      between c columns keyAllowed (List.replicate extra.length .blockEnd ++ tokens) := by
  have hclosed : (extra ++ columns).takeWhile (fun e => decide (least ≤ e)) = extra := by
    rw [List.takeWhile_append_of_pos (by simpa using hextra)]
    cases columns with
    | nil => simp
    | cons e columns =>
      have he : ¬least ≤ e := Nat.not_le.mpr (hcolumns e rfl)
      simp [he]
  simp [closeBlocks, between, inFlow, hclosed, Nat.add_comm]

end Lexer

-- ---------------------------------------------------------------------------
-- The way to the next token
-- ---------------------------------------------------------------------------

def TokenFront (cs : List Char) : Prop := ∀ d ∈ cs.head?, isGap d = false ∧ d ≠ '#'

theorem tokenFront_cons (h : isGap d = false ∧ d ≠ '#') : TokenFront (d :: cs) := by
  simpa [TokenFront] using h

theorem TokenFront.solid (h : TokenFront cs) : StartsSolid cs := fun d hd => (h d hd).1

namespace Lexer

variable {s : Source} {c c' : Cursor} {cols cols' : List Nat} {ts ts' : List Token}
  {allowed allowed' : Bool}

theorem toToken_blanks {c : Cursor} (h : TokenFront more)
    (hc : c.rest = List.replicate j ' ' ++ more) (n : Nat) (keyAllowed : Bool) :
    toToken false false (n + 1) keyAllowed c = (keyAllowed, c.skip j) := by
  have hrun : c.run (fun d => d = ' ' || (d = '\t' && (false || !keyAllowed))) =
      List.replicate j ' ' := by
    rw [Cursor.run, hc]
    refine takeWhile_run (by simp) fun d hd => ?_
    have hblank := ne_blank (h d hd).1
    have htab : d ≠ '\t' := by
      rintro rfl
      cases (h _ hd).1
    simp [hblank, htab]
  have hrest : (c.skip j).rest = more := by simp [hc]
  have hremark : (c.skip j).skipRemark = c.skip j := by
    rw [Cursor.skipRemark, if_neg]
    rw [Cursor.startsWith, Cursor.aheadIs, hrest, List.drop_zero]
    cases more with
    | nil => simp
    | cons d more => simpa using (h d rfl).2
  have hbreak : (c.skip j).aheadIs 0 isBreak = false := by
    rw [Cursor.aheadIs, hrest, List.drop_zero]
    cases more with
    | nil => rfl
    | cons d more => exact not_isBreak (h d rfl).1
  rw [toToken]
  simp only [Bool.false_and, Bool.false_eq_true, if_false, Cursor.skipRun, hrun,
    List.length_replicate, hremark, hbreak]

theorem toToken_newLine {c : Cursor} (hc : c.rest = '\n' :: rest) (n : Nat) (keyAllowed : Bool) :
    toToken false false (n + 1) keyAllowed c = toToken false false n true c.nextLine := by
  have hskip (p : Char → Bool) (hp : p '\n' = false) : c.skipRun p = c := by
    simp [Cursor.skipRun, Cursor.run, hc, hp]
  have hremark : c.skipRemark = c := by
    simp [Cursor.skipRemark, Cursor.startsWith, Cursor.aheadIs, hc]
  rw [toToken]
  simp [hskip, hremark, Cursor.aheadIs, hc, isBreak]

/-- The next token begins the lines `ahead`, and it may be a key. -/
def Sees (ahead : List Char) (keyAllowed : Bool) (c : Cursor) : Prop :=
  ∃ j more c', ahead = List.replicate j ' ' ++ more ∧ TokenFront more ∧
    toToken false false (c.rest.length + 1) keyAllowed c = (true, c') ∧ c'.column = j ∧
    c'.rest = more

theorem Sees.here {c : Cursor} (h : TokenFront c.rest) :
    Sees (List.replicate c.column ' ' ++ c.rest) true c := by
  refine ⟨c.column, c.rest, c, rfl, h, ?_, rfl, rfl⟩
  rw [toToken_blanks h (j := 0) rfl, Cursor.skip_zero]

theorem Sees.newLine {c : Cursor} (h : TokenFront more)
    (hc : c.rest = '\n' :: (List.replicate j ' ' ++ more)) (keyAllowed : Bool) :
    Sees (List.replicate j ' ' ++ more) keyAllowed c := by
  have hrest : c.nextLine.rest = List.replicate j ' ' ++ more := by simp [hc]
  refine ⟨j, more, c.nextLine.skip j, rfl, h, ?_, by simp, by simp [hc]⟩
  rw [toToken_newLine hc, show c.rest.length = c.nextLine.rest.length + 1 by simp [hc],
    toToken_blanks h hrest]

/-- Blanks before a token are told apart from it. -/
theorem blanks_inj (h : List.replicate j ' ' ++ more = List.replicate k ' ' ++ rest)
    (hmore : TokenFront more) (hrest : TokenFront rest) : j = k ∧ more = rest := by
  have hblanks (n : Nat) {cs : List Char} (hcs : TokenFront cs) :
      (List.replicate n ' ' ++ cs).takeWhile (· = ' ') = List.replicate n ' ' :=
    takeWhile_run (by simp) fun d hd => by simpa using ne_blank (hcs d hd).1
  have hlen := congrArg (fun cs => (cs.takeWhile (· = ' ')).length) h
  simp only [hblanks j hmore, hblanks k hrest, List.length_replicate] at hlen
  subst hlen
  exact ⟨rfl, List.append_cancel_left h⟩

theorem Sees.token (h : Sees (List.replicate i ' ' ++ rest) allowed c) (hrest : TokenFront rest) :
    ∃ c', toToken false false (c.rest.length + 1) allowed c = (true, c') ∧ c'.column = i ∧
      c'.rest = rest := by
  obtain ⟨j, more, c', heq, hmore, htoken, hcolumn, hc'⟩ := h
  obtain ⟨rfl, rfl⟩ := blanks_inj heq hrest hmore
  exact ⟨c', htoken, hcolumn, hc'⟩

-- ---------------------------------------------------------------------------
-- Open blocks
-- ---------------------------------------------------------------------------

/-- What the open blocks and the tokens become when all blocks to the right of a column end. -/
def Closes (i : Nat) (cols : List Nat) (ts : List Token) (cols' : List Nat)
    (ts' : List Token) : Prop :=
  ∃ extra, cols = extra ++ cols' ∧ (∀ e ∈ extra, i < e) ∧ (∀ e ∈ cols'.head?, e ≤ i) ∧
    ts' = List.replicate extra.length .blockEnd ++ ts

theorem Closes.refl (h : ∀ e ∈ cols.head?, e ≤ i) : Closes i cols ts cols ts :=
  ⟨[], rfl, by simp, h, rfl⟩

/-- Ending the blocks to the right of a column ends the block of a group behind it. -/
theorem Closes.outward (h : Closes k cols ts (k :: cols') ts') (hik : i < k)
    (hcolumns : ∀ e ∈ cols'.head?, e ≤ i) :
    Closes i cols ts cols' (.blockEnd :: ts') := by
  obtain ⟨extra, rfl, hextra, -, rfl⟩ := h
  refine ⟨extra ++ [k], by simp, ?_, hcolumns, ?_⟩
  · rw [List.forall_mem_append]
    exact ⟨fun e he => Nat.lt_trans hik (hextra e he), by simpa using hik⟩
  · simp [List.replicate_succ]

theorem step?_between (hs : s.Sound)
    (htoken : toToken false false (c.rest.length + 1) allowed c = (allowed', c'))
    (hcloses : Closes c'.column cols ts cols' ts') :
    (between c cols allowed ts).step? s =
      (between c' cols' allowed' ts').fetch? := by
  obtain ⟨extra, rfl, hextra, hcolumns, rfl⟩ := hcloses
  rw [step?_eq (l := between c (extra ++ cols') allowed ts) hs rfl htoken (by simp [between])]
  have hleft (e : Nat) (he : e ∈ cols'.head?) : e < c'.column + 1 :=
    Nat.lt_succ_of_le (hcolumns e he)
  exact congrArg fetch? (closeBlocks_between hextra hleft c' allowed' ts)

theorem dropStale?_between : (between c cols allowed ts).dropStale? =
    some (between c cols allowed ts) :=
  dropStale?_eq rfl (by simp [between])

-- ---------------------------------------------------------------------------
-- Plain scalars
-- ---------------------------------------------------------------------------

structure PlainStart (c : Cursor) (d : Char) : Prop where
  front : ∃ rest, c.rest = d :: rest
  solid : isGap d = false
  noMark : "#,[]\x7b\x7d&*!|>'\"%@\x60".toList.contains d = false
  joined : d = '?' ∨ d = ':' ∨ d = '-' → c.endsAt 1 = false
  inside : c.atMark = false

theorem PlainStart.not_remark (h : PlainStart c d) : c.startsWith '#' = false := by
  obtain ⟨rest, hrest⟩ := h.front
  have hd : d ≠ '#' := by
    rintro rfl
    exact absurd h.noMark (by decide)
  simp [Cursor.startsWith, Cursor.aheadIs, hrest, hd]

theorem PlainStart.starts (h : PlainStart c d) : startsPlain false c = true := by
  obtain ⟨rest, hrest⟩ := h.front
  rw [startsPlain, Cursor.aheadIs, hrest]
  simp only [List.drop_zero, List.head?_cons, Option.any_some]
  split
  next hindicator =>
    have hd : d = '?' ∨ d = ':' ∨ d = '-' := by
      have hmarks := h.noMark
      simp at hmarks
      simp [isIndicator, hmarks] at hindicator
      tauto
    have hends := h.joined hd
    have hblank : c.aheadIs 1 isBlank = false := by
      rw [Cursor.endsAt] at hends
      rw [Cursor.aheadIs]
      cases hnext : (c.rest.drop 1).head? with
      | none => rfl
      | some x => simp_all [isGap]
    rcases hd with rfl | rfl | rfl <;> simp [hends, hblank]
  · simp [h.solid]

theorem PlainStart.fetch? (h : PlainStart c d) (cols : List Nat) (allowed : Bool)
    (ts : List Token) :
    (between c cols allowed ts).fetch? = (between c cols allowed ts).plain? := by
  obtain ⟨rest, hrest⟩ := h.front
  have hjoined (mark : Char) (hmark : mark = '?' ∨ mark = ':' ∨ mark = '-') :
      (decide (d = mark) && c.endsAt 1) = false := by
    by_cases hd : d = mark
    · rw [h.joined (hd ▸ hmark), Bool.and_false]
    · simp [hd]
  have hmarks := h.noMark
  simp at hmarks
  simp [Lexer.fetch?, between, hrest, h.inside, hmarks, inFlow, hjoined, h.starts]

-- ---------------------------------------------------------------------------
-- Keys
-- ---------------------------------------------------------------------------

/-- A key at a column opens a block there, unless it is a further key of the innermost one. -/
inductive Opens (i : Nat) : (cols cols' : List Nat) → (opening : List Token) → Prop
  | first {cols : List Nat} (inward : ∀ e ∈ cols.head?, e < i) :
      Opens i cols (i :: cols) [.blockMapping]
  | next {cols : List Nat} : Opens i (i :: cols) (i :: cols) []

theorem Opens.head (h : Opens i cols cols' opening) : cols'.head? = some i := by
  cases h <;> rfl

theorem Opens.le (h : Opens i cols cols' opening) : ∀ e ∈ cols.head?, e ≤ i := by
  cases h with
  | first inward => exact fun e he => Nat.le_of_lt (inward e he)
  | next => simp

def behindWord (c : Cursor) (word : List Char) (cols : List Nat) (ts : List Token) : Lexer :=
  { between (c.skip word.length) cols false (.scalar true (String.ofList word) :: ts) with
    candidate := some ⟨ts.length, c.index, c.line, c.column, cols.head? = some c.column⟩ }

/-- A word that begins with no dash is a plain scalar before a colon. -/
structure IsKey (word : List Char) : Prop where
  chars : ∀ d ∈ word, isWordChar d = true
  front : ∃ d rest, word = d :: rest ∧ d ≠ '-'
  short : word.length ≤ 1024

theorem not_mark_of_isWordChar (h : isWordChar d = true) :
    "#,[]\x7b\x7d&*!|>'\"%@\x60".toList.contains d = false := by
  have hmarks : "#,[]\x7b\x7d&*!|>'\"%@\x60".toList.all (fun m => !isWordChar m) = true := by
    decide
  rw [List.contains_eq_mem, decide_eq_false_iff_not]
  intro hd
  have hnot := List.all_eq_true.mp hmarks d hd
  rw [h] at hnot
  cases hnot

theorem IsKey.start (h : IsKey word) (hc : c.rest = word ++ more) :
    ∃ d, PlainStart c d := by
  obtain ⟨d, rest, rfl, hdash⟩ := h.front
  have hd := h.chars d List.mem_cons_self
  refine ⟨d, ⟨rest ++ more, hc⟩, not_isGap_of_isWordChar hd, not_mark_of_isWordChar hd, ?_, ?_⟩
  · rintro (rfl | rfl | rfl)
    · exact absurd hd (by decide)
    · exact absurd hd (by decide)
    · exact absurd rfl hdash
  · refine Cursor.atMark_of_front hc ⟨hdash, ?_⟩
    rintro rfl
    exact absurd hd (by decide)

theorem IsKey.tokenFront (h : IsKey word) (more : List Char) : TokenFront (word ++ more) := by
  obtain ⟨d, rest, rfl, -⟩ := h.front
  have hd := h.chars d List.mem_cons_self
  refine tokenFront_cons ⟨not_isGap_of_isWordChar hd, ?_⟩
  rintro rfl
  exact absurd hd (by decide)

theorem plainScalar?_key (h : IsKey word) (hc : c.rest = word ++ ':' :: more)
    (hmore : more.head?.all isGap = true) (least n : Nat) :
    plainScalar? false least (n + 1) false c = some ⟨word, false, c.skip word.length⟩ := by
  obtain ⟨d, hstart⟩ := h.start hc
  have hlast : word.getLast? ≠ some ':' := fun hlast =>
    absurd (h.chars ':' (List.mem_of_getLast? hlast)) (by decide)
  have hrun : plainRun false c.rest = word := by
    rw [hc]
    refine plainRun_word (fun d hd => not_isGap_of_isWordChar (h.chars d hd)) hlast ?_
    simp [plainRun, hmore]
  have hgap : (c.skip word.length).run isGap = [] := by
    simp [Cursor.run, hc, isGap, isBlank, isBreak]
  rw [plainScalar?]
  simp [hstart.inside, hstart.not_remark, hrun, hgap]

theorem fetch?_key (h : IsKey word) (hc : c.rest = word ++ ':' :: more)
    (hmore : more.head?.all isGap = true) (cols : List Nat) (ts : List Token) :
    (between c cols true ts).fetch? = some (behindWord c word cols ts) := by
  obtain ⟨d, hstart⟩ := h.start hc
  rw [hstart.fetch?, plain?]
  simp [between, markCandidate?, dropCandidate?, forget?, inFlow, plainScalar?_key h hc hmore,
    behindWord, emit]
  rfl

theorem closeBlocks_behindWord (h : ∀ e ∈ cols.head?, e ≤ c.column) (word : List Char)
    (ts : List Token) :
    { behindWord c word cols ts with keyAllowed := false, cursor := c.skip word.length }.closeBlocks
      ((c.skip word.length).column + 1) = behindWord c word cols ts := by
  have hclosed : cols.takeWhile (fun e => decide ((c.skip word.length).column + 1 ≤ e)) = [] := by
    cases cols with
    | nil => rfl
    | cons e cols =>
      have he : ¬(c.skip word.length).column + 1 ≤ e := by
        have hle := h e rfl
        rw [Cursor.skip_column]
        omega
      rw [List.takeWhile_cons_of_neg]
      rwa [decide_eq_true_eq]
  simp only [closeBlocks, behindWord, between, inFlow, hclosed]
  rfl

theorem fetch?_colon (hc : c.rest = word ++ ':' :: more) (hmore : more.head?.all isGap = true)
    (cols : List Nat) (ts : List Token) :
    (behindWord c word cols ts).fetch? = (behindWord c word cols ts).value? := by
  have hrest : (c.skip word.length).rest = ':' :: more := by simp [hc]
  have hmark : (c.skip word.length).atMark = false := Cursor.atMark_of_front hrest (by decide)
  have hend : (c.skip word.length).endsAt 1 = true := by
    rw [Cursor.endsAt, hrest]
    exact hmore
  rw [Lexer.fetch?, show (behindWord c word cols ts).cursor = c.skip word.length from rfl, hrest]
  simp [hmark, hend]

theorem value?_behindWord (h : Opens c.column cols cols' opening) (word : List Char)
    (ts : List Token) :
    (behindWord c word cols ts).value? = some (between (c.skip (word.length + 1)) cols' false
      (.value :: .scalar true (String.ofList word) :: .key :: (opening ++ ts))) := by
  cases h with
  | first inward =>
    have hinner : cols.head?.elim 0 (· + 1) ≤ c.column := by
      cases cols with
      | nil => simp
      | cons e cols => exact inward e rfl
    simp [value?, behindWord, between, insertKey, inFlow, inner, hinner, emit, Cursor.skip_skip]
  | next =>
    simp [value?, behindWord, between, insertKey, inFlow, inner, emit, Cursor.skip_skip]

/-- The colon behind a word makes a key of it. -/
theorem step?_colon (hs : s.Sound) (h : IsKey word) (hc : c.rest = word ++ ':' :: more)
    (hmore : more.head?.all isGap = true) (hopens : Opens c.column cols cols' opening)
    (ts : List Token) :
    (behindWord c word cols ts).dropStale? = some (behindWord c word cols ts) ∧
    (behindWord c word cols ts).step? s = some (between (c.skip (word.length + 1)) cols' false
      (.value :: .scalar true (String.ofList word) :: .key :: (opening ++ ts))) := by
  have hrest : (c.skip word.length).rest = ':' :: more := by simp [hc]
  have htoken : toToken false false ((c.skip word.length).rest.length + 1) false
      (c.skip word.length) = (false, c.skip word.length) := by
    have hfront : TokenFront (':' :: more) := by simp [TokenFront, isGap, isBlank, isBreak]
    rw [toToken_blanks hfront (j := 0) hrest, Cursor.skip_zero]
  have hstale : ∀ k ∈ (behindWord c word cols ts).candidate,
      Candidate.isStale (c.skip word.length) k = false := by
    have hshort := h.short
    rintro k ⟨⟩
    simp [Candidate.isStale]
    omega
  refine ⟨dropStale?_eq rfl hstale, ?_⟩
  rw [step?_eq (l := behindWord c word cols ts) hs rfl htoken hstale,
    closeBlocks_behindWord hopens.le, fetch?_colon hc hmore, value?_behindWord hopens]

theorem length_skipRemark_le (c : Cursor) : c.skipRemark.rest.length ≤ c.rest.length := by
  rw [Cursor.skipRemark]
  split <;> simp [Cursor.skipRun]

theorem length_toToken_le (h : toToken false false n allowed c = (allowed', c')) :
    c'.rest.length ≤ c.rest.length := by
  induction n generalizing c allowed with
  | zero =>
    simp only [toToken, Prod.mk.injEq] at h
    rw [← h.2]
  | succ n ih =>
    rw [toToken] at h
    simp only [Bool.false_and, Bool.false_eq_true, if_false] at h
    have hstop (p : Char → Bool) : (c.skipRun p).skipRemark.rest.length ≤ c.rest.length := by
      refine Nat.le_trans (length_skipRemark_le _) ?_
      simp [Cursor.skipRun]
    split at h
    · refine Nat.le_trans (ih h) ?_
      rw [Cursor.nextLine_rest, List.length_drop]
      exact Nat.le_trans (Nat.sub_le _ _) (hstop _)
    · obtain ⟨-, rfl⟩ := Prod.mk.inj h
      exact hstop _

/-- A key and its colon, at the front of a line. -/
theorem advances_key (hs : s.Sound) (h : IsKey word) (hmore : more.head?.all isGap = true)
    (hsees : Sees (List.replicate i ' ' ++ (word ++ ':' :: more)) allowed c)
    (hcloses : Closes i cols ts cols' ts') (hopens : Opens i cols' cols'' opening) :
    ∃ c', c'.column = i + word.length + 1 ∧ c'.rest = more ∧
      Relation.ReflTransGen (Advances s) (between c cols allowed ts) (between c' cols'' false
        (.value :: .scalar true (String.ofList word) :: .key :: (opening ++ ts'))) := by
  obtain ⟨c', htoken, rfl, hc'⟩ := hsees.token (h.tokenFront _)
  obtain ⟨hfresh, hcolon⟩ := step?_colon hs h hc' hmore hopens ts'
  have hlen := length_toToken_le htoken
  have hpos : 0 < word.length := by
    obtain ⟨d, rest, rfl, -⟩ := h.front
    simp
  have hfirst : Advances s (between c cols allowed ts) (behindWord c' word cols' ts') := by
    refine ⟨dropStale?_between, ?_, by simp [behindWord, between], ?_⟩
    · rw [step?_between hs htoken hcloses, fetch?_key h hc' hmore]
    · simp only [behindWord, between, Cursor.skip_rest, List.length_drop]
      rw [hc', List.length_append] at hlen ⊢
      omega
  refine ⟨c'.skip (word.length + 1), by simp [Nat.add_assoc], by simp [hc'],
    .tail (.single hfirst) ?_⟩
  refine ⟨hfresh, hcolon, by simp [between], ?_⟩
  simp [behindWord, between, hc']

-- ---------------------------------------------------------------------------
-- Values
-- ---------------------------------------------------------------------------

/-- What follows a value: a line that stands at a column or to the left of it, or nothing. -/
structure Follows (i : Nat) (ahead : List Char) (j : Nat) (more : List Char) : Prop where
  text : ahead = List.replicate j ' ' ++ more
  front : TokenFront more
  left : j ≤ i

/-- The token at the cursor is a scalar, and the next one begins the lines `ahead`. -/
def FetchesScalar (c : Cursor) (i : Nat) (plain : Bool) (text : List Char) (ahead : List Char) :
    Prop :=
  ∀ cols ts, cols.head? = some i →
    ∃ c' allowed, (between c cols false ts).fetch? =
        some (between c' cols allowed (.scalar plain (String.ofList text) :: ts)) ∧
      Sees ahead allowed c' ∧ c'.rest.length ≤ c.rest.length

theorem fetches_quoted (hfollows : Follows i ahead j more)
    (hread : quoted? read? c = some (.scalar false (String.ofList cs), after))
    (hafter : after.rest = '\n' :: ahead) (hlen : after.rest.length ≤ c.rest.length)
    (hfetch : ∀ cols ts, (between c cols false ts).fetch? =
      (between c cols false ts).maybeKey? (quoted? read?)) :
    FetchesScalar c i false cs ahead := by
  intro cols ts _
  rw [hfollows.text] at hafter
  refine ⟨after, false, ?_, hfollows.text ▸ Sees.newLine hfollows.front hafter false, hlen⟩
  rw [hfetch]
  simp [between, maybeKey?, markCandidate?, hread, emit]

theorem fetches_single (h : SingleText cs) (hfollows : Follows i ahead j more)
    (hcolumn : i < c.column) (hc : c.rest = singleQuoted (i + 2) column cs ++ '\n' :: ahead) :
    FetchesScalar c i false cs ahead := by
  obtain ⟨after, hread, hafter⟩ := quoted?_single h (Nat.succ_pos _) (by simp) hc
  refine fetches_quoted hfollows hread hafter (by simp [hafter, hc]) fun cols ts => ?_
  obtain ⟨rest, hrest⟩ : ∃ rest, c.rest = '\'' :: rest := ⟨_, by rw [hc, singleQuoted_eq]; rfl⟩
  have hmark : c.atMark = false := Cursor.atMark_eq_false (Nat.zero_lt_of_lt hcolumn)
  rw [Lexer.fetch?, show (between c cols false ts).cursor = c from rfl, hrest]
  simp [hmark, between, inFlow]

theorem fetches_double (hfollows : Follows i ahead j more) (hcolumn : i < c.column)
    (hc : c.rest = doubleQuoted (i + 2) column cs ++ '\n' :: ahead) :
    FetchesScalar c i false cs ahead := by
  obtain ⟨after, hread, hafter⟩ := quoted?_double (Nat.succ_pos _) hc
  refine fetches_quoted hfollows hread hafter (by simp [hafter, hc]) fun cols ts => ?_
  obtain ⟨rest, hrest⟩ : ∃ rest, c.rest = '"' :: rest := ⟨_, by rw [hc, doubleQuoted]; rfl⟩
  have hmark : c.atMark = false := Cursor.atMark_eq_false (Nat.zero_lt_of_lt hcolumn)
  rw [Lexer.fetch?, show (between c cols false ts).cursor = c from rfl, hrest]
  simp [hmark, between, inFlow]

theorem fetches_literal (hne : cs ≠ []) (htab : '\t' ∉ cs) (hfollows : Follows i ahead j more)
    (hcolumn : i < c.column)
    (hc : c.rest =
      '|' :: literalHints cs ++ '\n' :: (blockText (i + 2) true (completed cs) ++ ahead)) :
    FetchesScalar c i false cs ahead := by
  have hbehind : (c.skip 1).rest = literalHints cs ++ '\n' ::
      (blockText (i + 1 + 1) true (completed cs) ++ (List.replicate j ' ' ++ more)) := by
    simp [hc, hfollows.text]
  obtain ⟨after, hread, hcolumn', hafter⟩ :=
    blockScalar?_literal hne htab (Nat.lt_succ_of_le hfollows.left) hfollows.front.solid hbehind
  intro cols ts hcols
  subst hafter
  have hsees : Sees ahead true after := by
    rw [hfollows.text, ← hcolumn']
    exact .here hfollows.front
  have hlen : after.rest.length ≤ c.rest.length := by
    simp [hc, hfollows.text]
    omega
  refine ⟨after, true, ?_, hsees, hlen⟩
  have hmark : c.atMark = false := Cursor.atMark_eq_false (Nat.zero_lt_of_lt hcolumn)
  rw [Lexer.fetch?, show (between c cols false ts).cursor = c from rfl, hc]
  simp [hmark, between, inFlow, block?, dropCandidate?, forget?, inner, hcols, hread, emit]

theorem PlainStart.of_text (h : PlainText cs) (hfront : PlainFront cs) (hcolumn : 0 < c.column)
    (hc : c.rest = fold (fun c => [c]) none indent column false cs ++ more) :
    ∃ d, PlainStart c d := by
  obtain ⟨d, rest, rfl, hd, hmark⟩ := hfront
  obtain ⟨hmark, hnext⟩ := Bool.or_eq_false_iff.mp hmark
  rw [fold, if_neg (ne_blank hd)] at hc
  refine ⟨d, ⟨_, hc⟩, hd, hmark, fun hjoined => ?_, Cursor.atMark_eq_false hcolumn⟩
  have hblank : rest.head?.all isBlank = false := by
    rcases hjoined with rfl | rfl | rfl <;> simpa using hnext
  -- Behind such a mark the text goes on without a blank, and so does what is written.
  cases rest with
  | nil => simp at hblank
  | cons e rest =>
    have he : isGap e = false := by
      cases hgap : isGap e with
      | false => rfl
      | true =>
        rw [h.blanks e (by simp) hgap] at hblank
        exact absurd hblank (by simp [isBlank])
    simp [Cursor.endsAt, hc, fold, ne_blank he, he]

theorem ne_hash_of_front (h : marksFront d next = false) : d ≠ '#' := by
  rintro rfl
  cases h

theorem fetches_plain (h : PlainText cs) (hfront : PlainFront cs)
    (hfollows : Follows i ahead j more) (hcolumn : i < c.column)
    (hc : c.rest = fold (fun c => [c]) none (i + 2) column false cs ++ '\n' :: ahead) :
    FetchesScalar c i true cs ahead := by
  obtain ⟨d, hstart⟩ := PlainStart.of_text h hfront (Nat.zero_lt_of_lt hcolumn) hc
  have hhead : ∀ d ∈ cs.head?, d ≠ ' ' ∧ d ≠ '#' := by
    obtain ⟨d, rest, rfl, hd, hmark⟩ := hfront
    simpa using ⟨ne_blank hd, ne_hash_of_front hmark⟩
  have hlong : cs.length < c.rest.length + 1 := by
    have := length_le_fold (i + 2) column false cs
    simp only [hc, List.length_append]
    omega
  rw [hfollows.text] at hc
  obtain ⟨after, hread, hcolumn', hafter⟩ := plainScalar?_fold h hhead
    (show 0 < i + 1 ∧ i + 1 ≤ i + 2 ∧ i + 1 ≤ c.column from ⟨by omega, by omega, hcolumn⟩)
    (Nat.lt_succ_of_le hfollows.left) hfollows.front.solid hlong hc false
  intro cols ts hcols
  subst hafter
  have hsees : Sees ahead true after := by
    rw [hfollows.text, ← hcolumn']
    exact .here hfollows.front
  have hlen : after.rest.length ≤ c.rest.length := by
    simp [hc]
    omega
  refine ⟨after, true, ?_, hsees, hlen⟩
  rw [hstart.fetch?, plain?]
  simp [between, inFlow, markCandidate?, inner, hcols, hread, emit]

/-- The value of a key on the same line. -/
theorem advances_value (hs : s.Sound) (hcolumn : i < c.column) (hc : c.rest = ' ' :: rest)
    (hfront : TokenFront rest) (hfetches : FetchesScalar (c.skip 1) i plain text ahead)
    (hcols : cols.head? = some i) (ts : List Token) :
    ∃ c' allowed, Advances s (between c cols false ts)
        (between c' cols allowed (.scalar plain (String.ofList text) :: ts)) ∧
      Sees ahead allowed c' := by
  obtain ⟨c', allowed, hfetch, hsees, hlen⟩ := hfetches cols ts hcols
  have htoken := toToken_blanks (j := 1) hfront hc c.rest.length false
  have hcloses : Closes (c.skip 1).column cols ts cols ts := by
    refine .refl fun e he => ?_
    obtain rfl : i = e := by simpa [hcols] using he
    rw [Cursor.skip_column]
    omega
  refine ⟨c', allowed, ⟨dropStale?_between, ?_, by simp [between], ?_⟩, hsees⟩
  · rw [step?_between hs htoken hcloses, hfetch]
  · refine Nat.lt_of_le_of_lt hlen ?_
    simp [between, hc]

/-- A text is read back from whatever style it is written in. -/
theorem fetches_text (hfollows : Follows i ahead j more) (hcolumn : i < c.column)
    (hc : c.rest = writeValue (i + 2) column text ++ ahead) :
    FetchesScalar c i (styleOf text = .plain) text.toList ahead := by
  cases hstyle : styleOf text with
  | plain =>
    obtain ⟨hplain, hfront, -⟩ := PlainText.of_style hstyle
    rw [writeValue, writeText, hstyle] at hc
    exact fetches_plain hplain hfront hfollows hcolumn (by simpa using hc)
  | single =>
    rw [writeValue, writeText, hstyle] at hc
    exact fetches_single (.of_style hstyle) hfollows hcolumn (by simpa using hc)
  | double =>
    rw [writeValue, writeText, hstyle] at hc
    exact fetches_double hfollows hcolumn (by simpa using hc)
  | literal =>
    obtain ⟨hne, htab⟩ := literal_of_style hstyle
    rw [writeValue_literal hstyle] at hc
    exact fetches_literal hne htab hfollows hcolumn (by simpa using hc)

theorem tokenFront_text (indent column : Nat) (text : String) (more : List Char) :
    TokenFront (writeValue indent column text ++ more) := by
  cases hstyle : styleOf text with
  | plain =>
    obtain ⟨-, ⟨d, rest, htext, hd, hmark⟩, -⟩ := PlainText.of_style hstyle
    rw [writeValue, writeText, hstyle]
    simp only [htext, fold, if_neg (ne_blank hd)]
    exact tokenFront_cons ⟨hd, ne_hash_of_front hmark⟩
  | single =>
    rw [writeValue, writeText, hstyle]
    simp only [singleQuoted_eq]
    exact tokenFront_cons (by decide)
  | double =>
    rw [writeValue, writeText, hstyle]
    exact tokenFront_cons (by decide)
  | literal =>
    rw [writeValue_literal hstyle]
    exact tokenFront_cons (by decide)

end Lexer

end SplatLang.Yaml
