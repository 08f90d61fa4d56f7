import Mathlib.Tactic.Ring
import SplatLang.Proofs.Utf8
import SplatLang.Proofs.Yaml.Layout
import SplatLang.Yaml.Lexer

/-!
# Quoted texts

What the writer puts between quotes is laid out, and the readers take it back, wherever its lines
are broken. Between single quotes a quote is written twice; between double quotes every character
has an escape that is read back.
-/

namespace SplatLang.Yaml

/-- A gap in a quoted text is passed as a whole, and no mark of a document stands behind it. -/
theorem pass_gap {c : Cursor} (gaps : ∀ d ∈ g, isGap d = true) (solid : StartsSolid out)
    (indented : g.getLast? = some ' ' ∨ out = []) (hq : isGap q = false ∧ q ≠ '-' ∧ q ≠ '.')
    (hc : c.rest = g ++ out ++ q :: more) :
    c.run isGap = g ∧ c.skipGap.rest = out ++ q :: more ∧ c.skipGap.atMark = false := by
  rw [List.append_assoc] at hc
  have hsolid : StartsSolid (out ++ q :: more) := by
    cases out with
    | nil => exact startsSolid_cons hq.1
    | cons d out => exact solid
  have hrest : (c.past g).rest = out ++ q :: more := by rw [Cursor.past_rest, hc, List.drop_left]
  rw [Cursor.skipGap_eq hc gaps hsolid]
  refine ⟨Cursor.run_gap hc gaps hsolid, hrest, ?_⟩
  rcases indented with hlast | rfl
  · exact Cursor.atMark_eq_false (Cursor.past_column_pos hlast c)
  · exact Cursor.atMark_of_front hrest hq.2

-- ---------------------------------------------------------------------------
-- Single quotes
-- ---------------------------------------------------------------------------

inductive SingleSpelling : Char → List Char → Prop
  | self (other : c ≠ '\'') (solid : isGap c = false) : SingleSpelling c [c]
  | quote : SingleSpelling '\'' ['\'', '\'']

theorem singleQuoted?_laid (h : Laid SingleSpelling cs out) (hmore : more.head? ≠ some '\'')
    (hn : out.length < n) (hc : c.rest = out ++ '\'' :: more) :
    ∃ after, singleQuoted? n c = some (cs, after) ∧ after.rest = more := by
  induction h generalizing n c with
  | nil =>
    obtain ⟨n, rfl⟩ := Nat.exists_eq_succ_of_ne_zero (Nat.ne_of_gt hn)
    refine ⟨c.skip 1, ?_, by simp [hc]⟩
    rw [singleQuoted?, hc]
    cases more with
    | nil => rfl
    | cons d more =>
      have hd : d ≠ '\'' := by simpa using hmore
      simp [hd]
  | @char d e cs out spelled rest ih =>
    obtain ⟨n, rfl⟩ := Nat.exists_eq_succ_of_ne_zero (Nat.ne_of_gt (Nat.zero_lt_of_lt hn))
    rw [List.length_append] at hn
    cases spelled with
    | self other solid =>
      obtain ⟨after, hrun, hafter⟩ := @ih n (c.skip 1) (by simp at hn; omega) (by simp [hc])
      refine ⟨after, ?_, hafter⟩
      rw [singleQuoted?, hc]
      simp [other, solid, hrun]
    | quote =>
      obtain ⟨after, hrun, hafter⟩ := @ih n (c.skip 2) (by simp at hn; omega) (by simp [hc])
      refine ⟨after, ?_, hafter⟩
      rw [singleQuoted?, hc]
      simp [hrun]
  | @gap g out cs gaps nonempty solid indented rest ih =>
    obtain ⟨n, rfl⟩ := Nat.exists_eq_succ_of_ne_zero (Nat.ne_of_gt (Nat.zero_lt_of_lt hn))
    obtain ⟨hgap, hrest, hmark⟩ := pass_gap gaps solid indented (by decide) hc
    obtain ⟨d, g, rfl⟩ := List.exists_cons_of_ne_nil nonempty
    have hd : isGap d = true := gaps d List.mem_cons_self
    have hquote : d ≠ '\'' := by
      rintro rfl
      cases hd
    rw [List.length_append, List.length_cons] at hn
    obtain ⟨after, hrun, hafter⟩ := @ih n c.skipGap (by omega) hrest
    refine ⟨after, ?_, hafter⟩
    rw [singleQuoted?, hc]
    simp [hquote, hd, hmark, hrun, hgap]

theorem hasPair_eq_false_iff :
    hasPair p q cs = false ↔ cs.IsChain fun a b => p a = true → q b = false := by
  induction cs with
  | nil => simp [hasPair]
  | cons a cs ih =>
    cases cs with
    | nil => simp [hasPair]
    | cons b cs =>
      rw [hasPair, Bool.or_eq_false_iff, ih, List.isChain_cons_cons]
      simp

theorem joint_breaks (hbreaks : ∀ d ∈ breaks, isBreak d = true ∧ d ≠ '\n') (hne : breaks ≠ [])
    (k : Nat) : joint (breaks ++ List.replicate k ' ') = breaks := by
  have hfilter : (breaks ++ List.replicate k ' ').filter isBreak = breaks := by
    rw [List.filter_append, filter_blanks, List.append_nil, List.filter_eq_self]
    exact fun d hd => (hbreaks d hd).1
  obtain ⟨b, breaks, rfl⟩ := List.exists_cons_of_ne_nil hne
  have hb : b ≠ '\n' := (hbreaks b List.mem_cons_self).2
  rw [joint, hfilter]
  simp [hb]

/-- Line ends that are no line feeds stand for themselves, and the next line is indented unless it
holds nothing. -/
theorem Laid.lineEnds {spells : Char → List Char → Prop}
    (hbreaks : ∀ d ∈ breaks, isBreak d = true ∧ d ≠ '\n') (hne : breaks ≠ [])
    (solid : StartsSolid out) (indented : 0 < k ∨ out = []) (h : Laid spells cs out) :
    Laid spells (breaks ++ cs) (breaks ++ (List.replicate k ' ' ++ out)) := by
  have hgaps : ∀ d ∈ breaks ++ List.replicate k ' ', isGap d = true :=
    List.forall_mem_append.mpr
      ⟨fun d hd => isGap_of_isBreak (hbreaks d hd).1, fun d => isGap_of_mem_blanks⟩
  have hlast : (breaks ++ List.replicate k ' ').getLast? = some ' ' ∨ out = [] := by
    refine indented.imp_left fun hk => ?_
    obtain ⟨k, rfl⟩ := Nat.exists_eq_succ_of_ne_zero (Nat.ne_of_gt hk)
    rw [List.getLast?_append_of_ne_nil _ (by simp)]
    exact getLast?_blanks k
  have hgap := h.gap hgaps (List.append_ne_nil_of_left_ne_nil hne _) solid hlast
  rwa [joint_breaks hbreaks hne, List.append_assoc] at hgap

def singleLines (indent column : Nat) (cs : List Char) : List Char :=
  match linesOf cs with
  | [] => []
  | line :: lines =>
    fold quoteTwice none indent column false line ++
      indented indent (fold quoteTwice none indent indent false) lines

theorem singleQuoted_eq (indent column : Nat) (cs : List Char) :
    singleQuoted indent column cs = '\'' :: singleLines indent (column + 1) cs ++ ['\''] := by
  rw [singleQuoted, singleLines]
  cases linesOf cs <;> simp

theorem quoteTwice_spelling (h : isGap c = false) :
    SingleSpelling c (quoteTwice c) ∧ StartsSolid (quoteTwice c) ∧ quoteTwice c ≠ [] := by
  rw [quoteTwice]
  split
  next hquote =>
    subst hquote
    exact ⟨.quote, startsSolid_cons (by decide), by simp⟩
  next hother => exact ⟨.self hother h, startsSolid_cons h, by simp⟩

/-- A text that the writer puts between single quotes: its line ends are no line feeds, and no blank
stands beside one. -/
structure SingleText (cs : List Char) : Prop where
  chars : ∀ d ∈ cs, d ≠ '\t' ∧ d ≠ '\n'
  before : cs.IsChain fun a b => a = ' ' → isBreak b = false
  after : cs.IsChain fun a b => isBreak a = true → b ≠ ' '

namespace SingleText

theorem isGap_eq_false (h : SingleText cs) (hc : c ∈ cs) (hblank : c ≠ ' ')
    (hbreak : isBreak c = false) : isGap c = false := by
  simp [isGap, isBlank, hblank, (h.chars c hc).1, hbreak]

theorem append_right (h : SingleText (front ++ cs)) : SingleText cs where
  chars d hd := h.chars d (List.mem_append_right _ hd)
  before := (List.isChain_append.mp h.before).2.1
  after := (List.isChain_append.mp h.after).2.1

theorem behind_breaks (h : SingleText (breaks ++ rest)) (hne : breaks ≠ [])
    (hbreaks : ∀ d ∈ breaks, isBreak d = true) (hrest : ∀ d ∈ rest.head?, isBreak d = false) :
    StartsSolid rest := by
  intro d hd
  have hlast := List.getLast?_eq_some_getLast hne
  refine h.isGap_eq_false (List.mem_append_right _ (List.mem_of_mem_head? hd)) ?_ (hrest d hd)
  exact (List.isChain_append.mp h.after).2.2 _ hlast d hd (hbreaks _ (List.mem_of_getLast? hlast))

end SingleText

theorem linesOf_head (c : Char) (cs : List Char) :
    ∃ line lines, linesOf (c :: cs) = (c :: line) :: lines := by
  rw [linesOf]
  split
  · exact ⟨_, _, rfl⟩
  · split <;> exact ⟨_, _, rfl⟩

/-- Behind a line end, a text that does not begin with a gap is indented unless it is empty. -/
theorem indented_single (h : StartsSolid cs) (hindent : 0 < indent) :
    ∃ k, indented indent (fold quoteTwice none indent indent false) (linesOf cs) =
        List.replicate k ' ' ++ singleLines indent indent cs ∧
      StartsSolid (singleLines indent indent cs) ∧ (0 < k ∨ singleLines indent indent cs = []) := by
  cases cs with
  | nil => exact ⟨0, rfl, startsSolid_nil, .inr rfl⟩
  | cons c cs =>
    obtain ⟨line, lines, hlines⟩ := linesOf_head c cs
    obtain ⟨-, hsolid, hne⟩ := quoteTwice_spelling h.of_cons
    have hblank := ne_blank h.of_cons
    have hbreak := not_isBreak h.of_cons
    refine ⟨indent, ?_, ?_, .inl hindent⟩
    · rw [singleLines, hlines, indented_cons, if_neg (by simp [hbreak]), List.append_assoc]
    · rw [singleLines, hlines]
      simp only [fold, if_neg hblank, List.append_assoc]
      exact hsolid.append hne

theorem singleLines_break (hcontent : ∀ d ∈ content, isBreak d = false)
    (hlast : content.getLast? ≠ some ' ') (hb : isBreak b = true)
    (hbreaks : ∀ d ∈ breaks, isBreak d = true) (indent column : Nat) (rest : List Char) :
    singleLines indent column (content ++ (b :: breaks ++ rest)) =
      fold quoteTwice none indent column false content ++ (b :: breaks ++
        indented indent (fold quoteTwice none indent indent false) (linesOf rest)) := by
  have hblank : b ≠ ' ' := by
    rintro rfl
    cases hb
  have hplain : quoteTwice b = [b] := if_neg (by rintro rfl; cases hb)
  rw [singleLines, List.cons_append, linesOf_line hcontent hb]
  dsimp only
  rw [fold_line hlast hblank, hplain, indented_breaks hbreaks]
  simp

theorem SingleText.laid (h : SingleText cs) (hindent : 0 < indent) (column : Nat) :
    Laid SingleSpelling cs (singleLines indent column cs) := by
  -- One line and the line ends behind it at a time.
  induction hlen : cs.length using Nat.strongRecOn generalizing cs column with
  | ind n ih =>
    obtain ⟨content, tail, rfl, hcontent, htail⟩ := run_then (!isBreak ·) cs
    have hcontent' : ∀ d ∈ content, isBreak d = false := by simpa using hcontent
    have hspell : ∀ c ∈ content, c ≠ ' ' →
        SingleSpelling c (quoteTwice c) ∧ StartsSolid (quoteTwice c) ∧ quoteTwice c ≠ [] :=
      fun c hc hblank => quoteTwice_spelling
        (h.isGap_eq_false (List.mem_append_left _ hc) hblank (hcontent' c hc))
    have hguard : ∀ g ∈ none, SingleSpelling ' ' [g, ' '] ∧ isGap g = false := by simp
    obtain ⟨breaks, rest, rfl, hbreaks, hrest⟩ := run_then isBreak tail
    cases breaks with
    | nil =>
      obtain rfl : rest = [] := by
        cases rest with
        | nil => rfl
        | cons d rest =>
          have hd : isBreak d = true := by simpa using htail d rfl
          rw [hrest d rfl] at hd
          cases hd
      have hlaid := fold_laid hindent hspell hguard (.inr startsSolid_nil) .nil column
      by_cases hnil : content = []
      · simp only [hnil]
        exact .nil
      · rw [List.append_nil, List.append_nil, singleLines, linesOf_open hcontent' hnil]
        rwa [List.append_nil] at hlaid
    | cons b breaks =>
      have htext : SingleText (b :: breaks ++ rest) := h.append_right
      have hbreaks' : ∀ d ∈ b :: breaks, isBreak d = true ∧ d ≠ '\n' := fun d hd =>
        ⟨hbreaks d hd, (htext.chars d (List.mem_append_left _ hd)).2⟩
      rw [List.forall_mem_cons] at hbreaks
      have hbefore : content.getLast? ≠ some ' ' := by
        intro hlast
        have hnot := (List.isChain_append.mp h.before).2.2 ' ' hlast b rfl rfl
        rw [hbreaks.1] at hnot
        cases hnot
      have hstart :=
        htext.behind_breaks (List.cons_ne_nil _ _) (fun d hd => (hbreaks' d hd).1) hrest
      obtain ⟨k, hindented, hsolid, hlast⟩ := indented_single hstart hindent
      rw [singleLines_break hcontent' hbefore hbreaks.1 hbreaks.2, hindented]
      have hrestLaid := ih rest.length (by simp [← hlen]; omega) htext.append_right indent rfl
      exact fold_laid hindent hspell hguard (.inl hbefore)
        (hrestLaid.lineEnds hbreaks' (List.cons_ne_nil _ _) hsolid hlast) column

theorem quoted?_single (h : SingleText cs) (hindent : 0 < indent) (hmore : more.head? ≠ some '\'')
    (hc : c.rest = singleQuoted indent column cs ++ more) :
    ∃ after, Lexer.quoted? singleQuoted? c = some (.scalar false (String.ofList cs), after) ∧
      after.rest = more := by
  have hlaid := h.laid hindent (column + 1)
  rw [singleQuoted_eq] at hc
  have hskip : (c.skip 1).rest = singleLines indent (column + 1) cs ++ '\'' :: more := by simp [hc]
  obtain ⟨after, hread, hafter⟩ :=
    singleQuoted?_laid hlaid hmore (n := c.rest.length + 1) (by simp [hc]; omega) hskip
  exact ⟨after, by rw [Lexer.quoted?, hread]; rfl, hafter⟩

-- ---------------------------------------------------------------------------
-- Double quotes
-- ---------------------------------------------------------------------------

inductive DoubleSpelling : Char → List Char → Prop
  | self (other : c ≠ '"' ∧ c ≠ '\\') (solid : isGap c = false) : DoubleSpelling c [c]
  | escape (first : isBreak d = false)
      (reads : ∀ more, unescape? (d :: u ++ more) = some (c, u.length + 1)) :
      DoubleSpelling c ('\\' :: d :: u)

theorem doubleQuoted?_laid (h : Laid DoubleSpelling cs out) (hn : out.length < n)
    (hc : c.rest = out ++ '"' :: more) :
    ∃ after, doubleQuoted? n c = some (cs, after) ∧ after.rest = more := by
  induction h generalizing n c with
  | nil =>
    obtain ⟨n, rfl⟩ := Nat.exists_eq_succ_of_ne_zero (Nat.ne_of_gt hn)
    refine ⟨c.skip 1, ?_, by simp [hc]⟩
    rw [doubleQuoted?, hc]
    rfl
  | @char d e cs out spelled rest ih =>
    obtain ⟨n, rfl⟩ := Nat.exists_eq_succ_of_ne_zero (Nat.ne_of_gt (Nat.zero_lt_of_lt hn))
    rw [List.length_append] at hn
    cases spelled with
    | self other solid =>
      obtain ⟨after, hrun, hafter⟩ := @ih n (c.skip 1) (by simp at hn; omega) (by simp [hc])
      refine ⟨after, ?_, hafter⟩
      rw [doubleQuoted?, hc]
      simp [other, solid, hrun]
    | @escape a u _ first reads =>
      obtain ⟨after, hrun, hafter⟩ := @ih n (c.skip (u.length + 1 + 1)) (by simp at hn; omega)
        (by simp [hc])
      refine ⟨after, ?_, hafter⟩
      have hreads := reads (out ++ '"' :: more)
      rw [List.cons_append] at hreads
      rw [doubleQuoted?, hc]
      simp [first, hreads, hrun]
  | @gap g out cs gaps nonempty solid indented rest ih =>
    obtain ⟨n, rfl⟩ := Nat.exists_eq_succ_of_ne_zero (Nat.ne_of_gt (Nat.zero_lt_of_lt hn))
    obtain ⟨hgap, hrest, hmark⟩ := pass_gap gaps solid indented (by decide) hc
    obtain ⟨d, g, rfl⟩ := List.exists_cons_of_ne_nil nonempty
    have hd : isGap d = true := gaps d List.mem_cons_self
    have hquote : d ≠ '"' ∧ d ≠ '\\' := by
      constructor <;> rintro rfl <;> cases hd
    rw [List.length_append, List.length_cons] at hn
    obtain ⟨after, hrun, hafter⟩ := @ih n c.skipGap (by omega) hrest
    refine ⟨after, ?_, hafter⟩
    rw [doubleQuoted?, hc]
    simp [hquote, hd, hmark, hrun, hgap]

theorem digitValue?_digitChar (h : d < 16) :
    Text.digitValue? (Nat.digitChar d).toUpper = some d := by
  decide +revert

theorem hexDigits_succ (width n : Nat) :
    hexDigits (width + 1) n =
      (Nat.digitChar ((n >>> (4 * width)) % 16)).toUpper :: hexDigits width n := by
  simp [hexDigits, List.range_succ]

theorem length_hexDigits (width n : Nat) : (hexDigits width n).length = width := by
  simp [hexDigits]

/-- The digits of a number are read back. -/
theorem foldl_hexDigits (width n acc : Nat) :
    (hexDigits width n).foldl (Text.addDigit 16) (some acc) =
      some (acc * 16 ^ width + n % 16 ^ width) := by
  induction width generalizing acc with
  | zero => simp [hexDigits, Nat.mod_one]
  | succ width ih =>
    have hdigit : Text.addDigit 16 (some acc) (Nat.digitChar ((n >>> (4 * width)) % 16)).toUpper =
        some (acc * 16 + n / 16 ^ width % 16) := by
      have hlt : n >>> (4 * width) % 16 < 16 := Nat.mod_lt _ (by decide)
      rw [Text.addDigit, digitValue?_digitChar hlt]
      rw [Nat.shiftRight_eq_div_pow, Nat.pow_mul] at hlt ⊢
      exact if_pos hlt
    rw [hexDigits_succ, List.foldl_cons, hdigit, ih, Nat.mod_pow_succ, Nat.pow_succ]
    congr 1
    ring

theorem numberedChar?_hexDigits (hwidth : width ≠ 0) (h : c.toNat < 16 ^ width) (more : List Char) :
    Text.numberedChar? width (hexDigits width c.toNat ++ more) = some c := by
  have hlen := length_hexDigits width c.toNat
  have hne : hexDigits width c.toNat ≠ [] := by
    intro hnil
    rw [hnil] at hlen
    exact hwidth hlen.symm
  have htake : (hexDigits width c.toNat ++ more).take width = hexDigits width c.toNat := by
    exact List.take_left' hlen
  have hread : Text.inBase? 16 (hexDigits width c.toNat) = some c.toNat := by
    rw [Text.inBase?, if_neg hne, foldl_hexDigits, Nat.zero_mul, Nat.zero_add, Nat.mod_eq_of_lt h]
  have hlong : ¬(hexDigits width c.toNat ++ more).length < width := by
    simp [hlen]
  simp only [Text.numberedChar?, if_neg hlong, htake, hread, Option.bind_eq_bind, Option.bind_some,
    Char.ofNat_toNat]
  exact if_pos (Text.char_bounds c)

theorem eq_ofNat (h : Char.toNat c = n) : c = Char.ofNat n := by rw [← h, Char.ofNat_toNat]

/-- An escape is read back, whatever follows it. -/
theorem unescape?_escape (c : Char) (more : List Char) :
    unescape? ((escape c).tail ++ more) = some (c, (escape c).tail.length) := by
  have hmost : c.toNat < 16 ^ 8 := by
    have hbounds := Text.char_bounds c
    omega
  rw [escape, List.tail_cons]
  split
  case h_16 =>
    split
    next h =>
      have hread := numberedChar?_hexDigits (by decide)
        (show c.toNat < 16 ^ 2 from Nat.lt_succ_of_le h) more
      simp [unescape?, hread, length_hexDigits]
    split
    next h =>
      have hread := numberedChar?_hexDigits (by decide)
        (show c.toNat < 16 ^ 4 from Nat.lt_succ_of_le h) more
      simp [unescape?, hread, length_hexDigits]
    · simp [unescape?, numberedChar?_hexDigits (by decide) hmost more, length_hexDigits]
  all_goals
    next h =>
      rw [eq_ofNat h]
      rfl

theorem escape_cons (c : Char) : ∃ d u, escape c = '\\' :: d :: u ∧ isBreak d = false := by
  rw [escape]
  split
  case h_16 =>
    split
    · exact ⟨_, _, rfl, by decide⟩
    split <;> exact ⟨_, _, rfl, by decide⟩
  all_goals exact ⟨_, _, rfl, by decide⟩

theorem DoubleSpelling.escaping (c : Char) : DoubleSpelling c (Yaml.escape c) := by
  obtain ⟨d, u, hescape, hd⟩ := escape_cons c
  have hread := unescape?_escape c
  rw [hescape] at hread ⊢
  exact .escape hd hread

theorem escaped_spelling (h : c ≠ ' ') :
    DoubleSpelling c (escaped c) ∧ StartsSolid (escaped c) ∧ escaped c ≠ [] := by
  rw [escaped]
  split
  next hself =>
    simp only [Bool.and_eq_true, Bool.not_eq_true', decide_eq_true_eq] at hself
    obtain ⟨⟨⟨hshown, hbreak⟩, hquote⟩, hslash⟩ := hself
    have hsolid : isGap c = false := by
      have htab : c ≠ '\t' := by
        rintro rfl
        exact absurd hshown (by decide)
      simp [isGap, isBlank, h, htab, hbreak]
    exact ⟨.self ⟨hquote, hslash⟩ hsolid, startsSolid_cons hsolid, by simp⟩
  next => exact ⟨.escaping c, startsSolid_cons (by decide), by simp [escape]⟩

theorem flatMap_escape_laid (cs : List Char) : Laid DoubleSpelling cs (cs.flatMap escape) := by
  induction cs with
  | nil => exact .nil
  | cons c cs ih => exact .char (.escaping c) ih

theorem fold_escaped_laid (hindent : 0 < indent) (column : Nat) (cs : List Char) :
    Laid DoubleSpelling cs (fold escaped (some '\\') indent column false cs) := by
  have hguard : ∀ g ∈ some '\\', DoubleSpelling ' ' [g, ' '] ∧ isGap g = false := by
    rintro g ⟨⟩
    exact ⟨.escape (by decide) fun more => rfl, by decide⟩
  have hlaid := fold_laid hindent (fun c (_ : c ∈ cs) => escaped_spelling) hguard
    (.inr startsSolid_nil) .nil column
  rwa [List.append_nil, List.append_nil] at hlaid

theorem quoted?_double (hindent : 0 < indent)
    (hc : c.rest = doubleQuoted indent column cs ++ more) :
    ∃ after, Lexer.quoted? doubleQuoted? c = some (.scalar false (String.ofList cs), after) ∧
      after.rest = more := by
  obtain ⟨body, hbody, hlaid⟩ : ∃ body, doubleQuoted indent column cs = '"' :: body ++ ['"'] ∧
      Laid DoubleSpelling cs body := by
    rw [doubleQuoted]
    split
    · exact ⟨_, rfl, flatMap_escape_laid cs⟩
    · exact ⟨_, rfl, fold_escaped_laid hindent _ cs⟩
  rw [hbody] at hc
  have hskip : (c.skip 1).rest = body ++ '"' :: more := by simp [hc]
  obtain ⟨after, hread, hafter⟩ :=
    doubleQuoted?_laid hlaid (n := c.rest.length + 1) (by simp [hc]; omega) hskip
  exact ⟨after, by rw [Lexer.quoted?, hread]; rfl, hafter⟩

end SplatLang.Yaml
