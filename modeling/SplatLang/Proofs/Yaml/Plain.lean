import SplatLang.Proofs.Yaml.Layout
import SplatLang.Yaml.Lexer

/-!
# Plain texts

A plain scalar is read word by word. Words that the writer put on the next line are joined again,
and the shape that the writer asks of a plain text keeps its marks apart from those of the format.
-/

namespace SplatLang.Yaml

structure PlainText (cs : List Char) : Prop where
  blanks : ∀ d ∈ cs, isGap d = true → d = ' '
  colons : cs.IsChain fun a b => a = ':' → b ≠ ' '
  hashes : cs.IsChain fun a b => a = ' ' → b ≠ '#'
  last : ∀ d ∈ cs.getLast?, d ≠ ' ' ∧ d ≠ ':'

/-- Characters up to a place where a plain scalar stops. -/
theorem plainRun_word (hword : ∀ d ∈ word, isGap d = false) (hlast : word.getLast? ≠ some ':')
    (hstop : plainRun false after = []) : plainRun false (word ++ after) = word := by
  induction word with
  | nil => exact hstop
  | cons c word ih =>
    rw [List.forall_mem_cons] at hword
    have hcolon : (c = ':' && (word ++ after).head?.all isGap) = false := by
      cases word with
      | nil =>
        have hc : c ≠ ':' := by simpa using hlast
        simp [hc]
      | cons d word => simp [hword.2 d List.mem_cons_self]
    have hlast' : word.getLast? ≠ some ':' := by
      by_cases hnil : word = []
      · simp [hnil]
      · rwa [List.getLast?_cons_of_ne_nil hnil] at hlast
    rw [List.cons_append, plainRun]
    simp only [hword.1, hcolon, Bool.false_and, Bool.or_false, Bool.false_eq_true, if_false,
      ih hword.2 hlast']

theorem plainRun_gap (h : isGap d = true) : plainRun false (d :: more) = [] := by
  simp [plainRun, h]

theorem tabsFit_of_no_tab (h : '\t' ∉ gap) (least : Nat) (column : Option Nat) :
    tabsFit least column gap = true := by
  induction gap generalizing column with
  | nil => rfl
  | cons d gap ih =>
    rw [List.mem_cons, not_or] at h
    rw [tabsFit]
    split
    · exact ih h.2 _
    · simp [Ne.symm h.1, ih h.2]

theorem fold_word (hword : ∀ d ∈ word, isGap d = false) (indent column : Nat) (rest : List Char) :
    fold (fun c => [c]) none indent column false (word ++ rest) =
      word ++ fold (fun c => [c]) none indent (column + word.length) false rest := by
  induction word generalizing column with
  | nil => rfl
  | cons c word ih =>
    rw [List.forall_mem_cons] at hword
    rw [List.cons_append, fold, if_neg (ne_blank hword.1), ih hword.2, Nat.add_assoc,
      Nat.add_comm [c].length]
    rfl

/-- What the writer may put between two words that some blanks keep apart. -/
structure WordGap (indent : Nat) (blanks gap : List Char) : Prop where
  gaps : ∀ d ∈ gap, isGap d = true
  noTab : '\t' ∉ gap
  nonempty : gap ≠ []
  joined : joint gap = blanks
  /-- The next word does not stand to the left of both the first one and the indentation. -/
  column (c : Cursor) : min indent c.column ≤ (c.past gap).column

theorem WordGap.blanks (indent k : Nat) :
    WordGap indent (List.replicate (k + 1) ' ') (List.replicate (k + 1) ' ') where
  gaps _ := isGap_of_mem_blanks
  noTab := by simp [List.mem_replicate]
  nonempty := by simp
  joined := joint_blanks _
  column c := by
    rw [Cursor.past_blanks, Cursor.skip_column]
    omega

theorem WordGap.newLine (indent : Nat) : WordGap indent [' '] (newLine indent) where
  gaps _ := isGap_of_mem_newLine
  noTab := by simp [Yaml.newLine, List.mem_replicate]
  nonempty := List.cons_ne_nil _ _
  joined := joint_newLine indent
  column c := by
    rw [Yaml.newLine, Cursor.past_newLine, Cursor.skip_column, Cursor.nextLine_column]
    omega

/-- Blanks before a word are kept, or a single one becomes a line end. -/
theorem fold_gap (hd : isGap d = false) (rest : List Char) (k indent column : Nat) :
    ∃ gap column', fold (fun c => [c]) none indent column false
        (List.replicate (k + 1) ' ' ++ d :: rest) =
        gap ++ fold (fun c => [c]) none indent column' false (d :: rest) ∧
      WordGap indent (List.replicate (k + 1) ' ') gap := by
  have hhead : (d :: rest).head? ≠ some ' ' := by simpa using ne_blank hd
  obtain ⟨gap, column', hfold, rfl | ⟨rfl, rfl⟩ | ⟨g, hg, -⟩⟩ := fold_blankRun hhead k column
  · exact ⟨_, column', hfold, .blanks indent k⟩
  · exact ⟨_, column', hfold, .newLine indent⟩
  · cases hg

theorem length_le_fold (indent column : Nat) (afterBlank : Bool) (cs : List Char) :
    cs.length ≤ (fold (fun c => [c]) none indent column afterBlank cs).length := by
  induction cs generalizing column afterBlank with
  | nil => simp
  | cons c cs ih =>
    rw [fold]
    dsimp only
    split
    · split
      · generalize (if cs.head? = some ' ' then none.toList else []) = mark
        have hle := ih (indent + mark.length) true
        simp only [List.length_append, List.length_cons, newLine]
        omega
      · simpa using ih _ true
    · simpa using ih _ false

namespace PlainText

theorem append_right (h : PlainText (front ++ cs)) (hne : cs ≠ []) : PlainText cs where
  blanks d hd := h.blanks d (List.mem_append_right _ hd)
  colons := (List.isChain_append.mp h.colons).2.1
  hashes := (List.isChain_append.mp h.hashes).2.1
  last d hd := h.last d (by rwa [List.getLast?_append_of_ne_nil _ hne])

/-- A plain text is a word, or a word before blanks and another plain text. -/
theorem cases_word (h : PlainText cs) :
    ∃ word, (∀ d ∈ word, isGap d = false) ∧ word.getLast? ≠ some ':' ∧
      (cs = word ∨ ∃ k d rest, cs = word ++ (List.replicate (k + 1) ' ' ++ d :: rest) ∧
        isGap d = false ∧ d ≠ '#' ∧ PlainText (d :: rest)) := by
  obtain ⟨word, tail, rfl, hword, htail⟩ := run_then (!isGap ·) cs
  obtain ⟨k, rest, rfl, hrest⟩ := blanks_then tail
  have hsolid (d : Char) (hd : d ∈ rest) (hblank : d ≠ ' ') : isGap d = false := by
    cases hgap : isGap d with
    | false => rfl
    | true =>
      exact absurd (h.blanks d (List.mem_append_right _ (List.mem_append_right _ hd)) hgap) hblank
  refine ⟨word, by simpa using hword, ?_⟩
  cases k with
  | zero =>
    cases rest with
    | nil =>
      rw [List.replicate_zero, List.append_nil, List.append_nil] at h ⊢
      exact ⟨fun hlast => (h.last ':' hlast).2 rfl, .inl rfl⟩
    | cons d rest =>
      have hd : d ≠ ' ' := by simpa using hrest
      have hgap := htail d rfl
      simp [hsolid d List.mem_cons_self hd] at hgap
  | succ k =>
    have hlast : word.getLast? ≠ some ':' :=
      fun hlast => (List.isChain_append.mp h.colons).2.2 ':' hlast ' ' rfl rfl rfl
    refine ⟨hlast, .inr ?_⟩
    cases rest with
    | nil =>
      have hblank := (h.last ' ' (by simp [List.getLast?_append, getLast?_blanks])).1
      exact absurd rfl hblank
    | cons d rest =>
      have hd : d ≠ ' ' := by simpa using hrest
      have hplain := (h.append_right (by simp)).append_right (List.cons_ne_nil d rest)
      refine ⟨k, d, rest, rfl, hsolid d List.mem_cons_self hd, ?_, hplain⟩
      have hhashes := (List.isChain_append.mp h.hashes).2.1
      exact (List.isChain_append.mp hhashes).2.2 ' ' (getLast?_blanks k) d rfl rfl

end PlainText

/-- One word of a plain scalar and the gap behind it. -/
theorem plainScalar?_word (hmark : c.atMark = false) (hremark : c.startsWith '#' = false)
    (hword : ∀ d ∈ word, isGap d = false) (hlast : word.getLast? ≠ some ':')
    (hgap : WordGap indent blanks gap) (hmore : StartsSolid more)
    (hc : c.rest = word ++ (gap ++ more)) :
    plainScalar? false least (n + 1) crossed c =
      if ((c.skip word.length).past gap).column < least then
        some ⟨word, gap.any isBreak, (c.skip word.length).past gap⟩
      else
        (plainScalar? false least n (gap.any isBreak) ((c.skip word.length).past gap)).bind fun r =>
          some { r with text := if r.text = [] then word else word ++ blanks ++ r.text } := by
  have hrun : plainRun false c.rest = word := by
    obtain ⟨d, gap, rfl⟩ := List.exists_cons_of_ne_nil hgap.nonempty
    rw [hc]
    exact plainRun_word hword hlast (plainRun_gap (hgap.gaps d List.mem_cons_self))
  have hstop : (c.skip word.length).rest = gap ++ more := by
    rw [Cursor.skip_rest, hc, List.drop_left]
  rw [plainScalar?]
  simp only [hmark, hremark, Bool.or_false, Bool.false_eq_true, if_false, hrun,
    Cursor.run_gap hstop hgap.gaps hmore, Cursor.skipGap_eq hstop hgap.gaps hmore, hgap.nonempty,
    tabsFit_of_no_tab hgap.noTab, hgap.joined, Bool.not_true, Bool.not_false, Bool.true_and,
    decide_eq_true_eq]
  rfl

/-- A plain text is read up to the next line, which stands further to the left. -/
theorem plainScalar?_fold (h : PlainText cs) (hfront : ∀ d ∈ cs.head?, d ≠ ' ' ∧ d ≠ '#')
    (hleast : 0 < least ∧ least ≤ indent ∧ least ≤ c.column) (hj : j < least)
    (hmore : StartsSolid more) (hn : cs.length < n)
    (hc : c.rest = fold (fun c => [c]) none indent column false cs ++ (newLine j ++ more))
    (crossed : Bool) :
    ∃ after, plainScalar? false least n crossed c = some ⟨cs, true, after⟩ ∧ after.column = j ∧
      after.rest = more := by
  induction n generalizing cs c column crossed with
  | zero => omega
  | succ n ih =>
    have hmark : c.atMark = false := Cursor.atMark_eq_false (by omega)
    have hremark : c.startsWith '#' = false := by
      rw [Cursor.startsWith, Cursor.aheadIs, hc]
      cases cs with
      | nil => rfl
      | cons d cs =>
        obtain ⟨hblank, hhash⟩ := hfront d rfl
        simp [fold, hblank, hhash]
    obtain ⟨word, hword, hlast, rfl | ⟨k, d, rest, rfl, hd, hhash, hplain⟩⟩ := h.cases_word
    · have hfold := fold_word hword indent column []
      rw [List.append_nil] at hfold
      rw [hfold, fold, List.append_nil] at hc
      have hpast (c : Cursor) : c.past (newLine j) = c.nextLine.skip j := Cursor.past_newLine j c
      rw [plainScalar?_word hmark hremark hword hlast (.newLine j) hmore hc, hpast,
        if_pos (by simpa using hj)]
      refine ⟨_, rfl, by simp, ?_⟩
      simp [hc, newLine]
    · obtain ⟨gap, column', hfold, hgap⟩ := fold_gap hd rest k indent (column + word.length)
      have hcolumn : least ≤ ((c.skip word.length).past gap).column := by
        refine Nat.le_trans (Nat.le_min.mpr ⟨hleast.2.1, ?_⟩) (hgap.column _)
        exact Nat.le_add_right_of_le hleast.2.2
      rw [fold_word hword, hfold, List.append_assoc, List.append_assoc] at hc
      have hsolid : StartsSolid (fold (fun c => [c]) none indent column' false (d :: rest) ++
          (newLine j ++ more)) := by
        rw [fold, if_neg (ne_blank hd)]
        exact startsSolid_cons hd
      have hrest : ((c.skip word.length).past gap).rest = fold (fun c => [c]) none indent column'
          false (d :: rest) ++ (newLine j ++ more) := by
        rw [Cursor.past_rest, Cursor.skip_rest, hc, List.drop_left, List.drop_left]
      obtain ⟨after, hread, hafter⟩ := ih hplain
        (by simpa using ⟨ne_blank hd, hhash⟩) ⟨hleast.1, hleast.2.1, hcolumn⟩
        (by simp at hn; simp; omega) hrest (gap.any isBreak)
      refine ⟨after, ?_, hafter⟩
      rw [plainScalar?_word hmark hremark hword hlast hgap hsolid hc,
        if_neg (Nat.not_lt.mpr hcolumn), hread]
      simp

def PlainFront (cs : List Char) : Prop :=
  ∃ c rest, cs = c :: rest ∧ isGap c = false ∧ marksFront c rest.head? = false

theorem marksInside_eq_false (h : marksInside previous cs = false) :
    (previous :: cs).IsChain (fun a b => a = ' ' → b ≠ '#') ∧
      cs.IsChain (fun a b => a = ':' → b ≠ ' ') ∧ cs.getLast? ≠ some ':' := by
  induction cs generalizing previous with
  | nil => simp
  | cons c cs ih =>
    simp only [marksInside, Bool.or_eq_false_iff, Bool.and_eq_false_iff,
      decide_eq_false_iff_not] at h
    obtain ⟨⟨hcolon, hhash⟩, hrest⟩ := h
    obtain ⟨hhashes, hcolons, hlast⟩ := ih hrest
    have hfirst : previous = ' ' → c ≠ '#' := by
      rintro rfl
      exact hhash.resolve_right (by decide)
    refine ⟨List.isChain_cons_cons.mpr ⟨hfirst, hhashes⟩, ?_, ?_⟩
    · cases cs with
      | nil => simp
      | cons d cs =>
        refine List.isChain_cons_cons.mpr ⟨?_, hcolons⟩
        rintro hc rfl
        exact absurd (hcolon.resolve_left (not_not_intro hc)) (by simp [isBlank])
    · cases cs with
      | nil =>
        simpa using hcolon
      | cons d cs => simpa using hlast

theorem isGap_of_shown (h : isShown d = true) (hbreak : isBreak d = false) (hgap : isGap d = true) :
    d = ' ' := by
  have htab : d ≠ '\t' := by
    rintro rfl
    exact absurd h (by decide)
  simpa [isGap, isBlank, hbreak, htab] using hgap

/-- The writer's test of a text's shape is enough for reading it back. -/
theorem PlainText.of_allowed (h : plainAllowed (c :: rest) = true)
    (hshown : ∀ d ∈ c :: rest, isShown d = true) :
    PlainText (c :: rest) ∧ PlainFront (c :: rest) := by
  simp only [plainAllowed, Bool.and_eq_true, Bool.not_eq_true', decide_eq_true_eq] at h
  obtain ⟨⟨⟨⟨⟨hfront, hinside⟩, hblank⟩, hlast⟩, hbreaks⟩, -⟩ := h
  have hblanks : ∀ d ∈ c :: rest, isGap d = true → d = ' ' := fun d hd =>
    isGap_of_shown (hshown d hd) (by simpa using List.any_eq_false.mp hbreaks d hd)
  obtain ⟨hhashes, hcolons, hlast'⟩ := marksInside_eq_false hinside
  have hcolon : c = ':' → rest.head?.all isBlank = false := by
    rintro rfl
    have hmark := (Bool.or_eq_false_iff.mp hfront).2
    simpa using hmark
  refine ⟨⟨hblanks, ?_, hhashes, ?_⟩, c, rest, rfl, ?_, hfront⟩
  · cases rest with
    | nil => simp
    | cons d rest =>
      refine List.isChain_cons_cons.mpr ⟨?_, hcolons⟩
      rintro hc rfl
      exact absurd (hcolon hc) (by simp [isBlank])
  · intro d hd
    refine ⟨fun heq => hlast (heq ▸ hd), ?_⟩
    rintro rfl
    by_cases hnil : rest = []
    · subst hnil
      have hc : c = ':' := by simpa using hd
      simpa using hcolon hc
    · rw [List.getLast?_cons_of_ne_nil hnil] at hd
      exact hlast' hd
  · cases hgap : isGap c with
    | false => rfl
    | true => exact absurd (hblanks c List.mem_cons_self hgap) hblank

theorem not_isGap_of_isWordChar (h : isWordChar d = true) : isGap d = false := by
  cases hgap : isGap d with
  | false => rfl
  | true =>
    simp only [isGap, isBlank, isBreak, Bool.or_eq_true, decide_eq_true_eq] at hgap
    rcases hgap with (rfl | rfl) | (rfl | rfl) | rfl <;> exact absurd h (by decide)

/-- A word is a plain text unless it is only a mark. -/
theorem PlainText.of_word (h : ∀ d ∈ word, isWordChar d = true) : PlainText word := by
  have hne (d : Char) (hd : d ∈ word) : d ≠ ' ' ∧ d ≠ ':' := by
    constructor <;> rintro rfl <;> exact absurd (h _ hd) (by decide)
  refine ⟨?_, ?_, ?_, fun d hd => hne d (List.mem_of_getLast? hd)⟩
  · intro d hd hgap
    rw [not_isGap_of_isWordChar (h d hd)] at hgap
    cases hgap
  · refine List.isChain_iff_forall_rel_of_append_cons_cons.mpr ?_
    rintro a b front rest rfl ha
    exact absurd ha (hne a (by simp)).2
  · refine List.isChain_iff_forall_rel_of_append_cons_cons.mpr ?_
    rintro a b front rest rfl ha
    exact absurd ha (hne a (by simp)).1

end SplatLang.Yaml
