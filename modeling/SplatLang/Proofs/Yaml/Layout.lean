import Mathlib.Data.List.Chain
import Mathlib.Data.List.TakeWhile
import SplatLang.Proofs.Yaml.Cursor
import SplatLang.Yaml.Writer

/-!
# Texts on several lines

The writer breaks long lines at blanks, and quoted texts may hold line ends of their own. `Laid`
says what text some written characters stand for, without saying where lines are broken: each
character is spelled by itself, and a gap between two of them stands for what joins its lines.
What the writer makes of a text is laid out, whatever the width of its lines, and the readers of
scalars take anything that is laid out.
-/

namespace SplatLang.Yaml

/-- The written characters stand for the text. `spells` tells how single characters may be
written. -/
inductive Laid (spells : Char → List Char → Prop) : (text written : List Char) → Prop
  | nil : Laid spells [] []
  | char (spelled : spells c e) (rest : Laid spells cs out) : Laid spells (c :: cs) (e ++ out)
  /-- A new line is indented unless it holds nothing. -/
  | gap (gaps : ∀ d ∈ g, isGap d = true) (nonempty : g ≠ []) (solid : StartsSolid out)
      (indented : g.getLast? = some ' ' ∨ out = []) (rest : Laid spells cs out) :
      Laid spells (joint g ++ cs) (g ++ out)

variable {spells : Char → List Char → Prop}

theorem filter_blanks (k : Nat) : (List.replicate k ' ').filter isBreak = [] :=
  List.filter_replicate_of_neg (by decide)

theorem joint_blanks (k : Nat) : joint (List.replicate k ' ') = List.replicate k ' ' := by
  rw [joint, filter_blanks]

theorem joint_newLine (indent : Nat) : joint (newLine indent) = [' '] := by
  have hfilter : (newLine indent).filter isBreak = ['\n'] := by
    rw [newLine, List.filter_cons_of_pos (by decide), filter_blanks]
  rw [joint, hfilter]
  rfl

theorem isGap_of_mem_blanks (h : d ∈ List.replicate k ' ') : isGap d = true := by
  rw [List.eq_of_mem_replicate h]
  rfl

theorem isGap_of_mem_newLine (h : d ∈ newLine indent) : isGap d = true := by
  rcases List.mem_cons.mp h with rfl | h
  · decide
  · exact isGap_of_mem_blanks h

theorem getLast?_blanks (k : Nat) : (List.replicate (k + 1) ' ').getLast? = some ' ' := by
  simp [List.getLast?_replicate]

theorem getLast?_newLine (h : 0 < indent) : (newLine indent).getLast? = some ' ' := by
  obtain ⟨k, rfl⟩ := Nat.exists_eq_succ_of_ne_zero (Nat.ne_of_gt h)
  rw [newLine, List.getLast?_cons_of_ne_nil (by simp)]
  exact getLast?_blanks k

namespace Laid

theorem blanks (k : Nat) (solid : StartsSolid out) (h : Laid spells cs out) :
    Laid spells (List.replicate k ' ' ++ cs) (List.replicate k ' ' ++ out) := by
  cases k with
  | zero => exact h
  | succ k =>
    have hgap := h.gap (fun d => isGap_of_mem_blanks) (by simp) solid (.inl (getLast?_blanks k))
    rwa [joint_blanks] at hgap

theorem folded (hindent : 0 < indent) (solid : StartsSolid out) (h : Laid spells cs out) :
    Laid spells (' ' :: cs) (newLine indent ++ out) := by
  have hgap := h.gap (fun d => isGap_of_mem_newLine) (List.cons_ne_nil _ _) solid
    (.inl (getLast?_newLine hindent))
  rwa [joint_newLine] at hgap

end Laid

-- ---------------------------------------------------------------------------
-- Broken lines
-- ---------------------------------------------------------------------------

/-- A text is some blanks and what does not begin with one. -/
theorem blanks_then (cs : List Char) :
    ∃ k ds, cs = List.replicate k ' ' ++ ds ∧ ds.head? ≠ some ' ' := by
  induction cs with
  | nil => exact ⟨0, [], rfl, nofun⟩
  | cons c cs ih =>
    by_cases hc : c = ' '
    · obtain ⟨k, ds, rfl, hds⟩ := ih
      exact ⟨k + 1, ds, by rw [hc, List.replicate_succ, List.cons_append], hds⟩
    · exact ⟨0, c :: cs, rfl, by simpa using hc⟩

section
variable {spell : Char → List Char} {guard : Option Char} {indent : Nat}

theorem fold_afterBlank (h : cs.head? ≠ some ' ') (column : Nat) :
    fold spell guard indent column true cs = fold spell guard indent column false cs := by
  cases cs with
  | nil => rfl
  | cons c cs =>
    have hc : c ≠ ' ' := by simpa using h
    simp only [fold, if_neg hc]

/-- Behind a blank no line is broken at the next ones. -/
theorem fold_blanks (k column : Nat) (cs : List Char) :
    fold spell guard indent column true (List.replicate k ' ' ++ cs) =
      List.replicate k ' ' ++ fold spell guard indent (column + k) true cs := by
  induction k generalizing column with
  | zero => rfl
  | succ k ih =>
    rw [List.replicate_succ, List.cons_append, fold]
    simp only [if_true, Bool.not_true, Bool.and_false, Bool.false_and, Bool.false_eq_true, if_false]
    rw [ih, Nat.add_right_comm, Nat.add_assoc]
    rfl

/-- Some blanks are kept, or the line is broken at the first of them. Those behind it are then kept
by a mark before them. -/
theorem fold_blankRun (h : cs.head? ≠ some ' ') (k column : Nat) :
    ∃ gap column', fold spell guard indent column false (List.replicate (k + 1) ' ' ++ cs) =
        gap ++ fold spell guard indent column' false cs ∧
      (gap = List.replicate (k + 1) ' ' ∨ k = 0 ∧ gap = newLine indent ∨
        ∃ g ∈ guard, ∃ j, k = j + 1 ∧
          gap = newLine indent ++ g :: List.replicate (j + 1) ' ') := by
  rw [List.replicate_succ, List.cons_append, fold, if_pos rfl]
  dsimp only
  split
  next hbreak =>
    cases k with
    | zero =>
      refine ⟨newLine indent, indent + 0, ?_, .inr (.inl ⟨rfl, rfl⟩)⟩
      rw [List.replicate_zero, List.nil_append, if_neg h, List.append_nil, fold_afterBlank h]
      rfl
    | succ k =>
      have hdoubled : (List.replicate (k + 1) ' ' ++ cs).head? = some ' ' := rfl
      obtain ⟨g, rfl⟩ : ∃ g, guard = some g := by
        rw [← Option.isSome_iff_exists]
        simp only [hdoubled, Bool.and_eq_true] at hbreak
        simpa using hbreak.2
      refine ⟨_, indent + 1 + (k + 1), ?_, .inr (.inr ⟨g, rfl, k, rfl, rfl⟩)⟩
      rw [if_pos hdoubled, fold_blanks, fold_afterBlank h]
      simp
  · refine ⟨_, column + 1 + k, ?_, .inl rfl⟩
    rw [fold_blanks, fold_afterBlank h, List.cons_append]

/-- What is laid out behind a text may follow what the writer makes of the text. -/
theorem fold_laid (hindent : 0 < indent)
    (hspell : ∀ c ∈ cs, c ≠ ' ' → spells c (spell c) ∧ StartsSolid (spell c) ∧ spell c ≠ [])
    (hguard : ∀ g ∈ guard, spells ' ' [g, ' '] ∧ isGap g = false)
    (hlast : cs.getLast? ≠ some ' ' ∨ StartsSolid out) (hrest : Laid spells ds out)
    (column : Nat) :
    Laid spells (cs ++ ds) (fold spell guard indent column false cs ++ out) := by
  -- A run of blanks is passed at once, because a break at its first one decides about all.
  induction hlen : cs.length using Nat.strongRecOn generalizing cs column with
  | ind n ih =>
    obtain ⟨k, more, rfl, hmore⟩ := blanks_then cs
    rw [List.forall_mem_append] at hspell
    have hlast' : more.getLast? ≠ some ' ' ∨ StartsSolid out := by
      by_cases hnil : more = []
      · exact .inl (by simp [hnil])
      · rwa [List.getLast?_append_of_ne_nil _ hnil] at hlast
    cases k with
    | zero =>
      cases more with
      | nil => exact hrest
      | cons c more =>
        have hc : c ≠ ' ' := by simpa using hmore
        have hspell := List.forall_mem_cons.mp hspell.2
        have hlast' : more.getLast? ≠ some ' ' ∨ StartsSolid out := by
          by_cases hnil : more = []
          · exact .inl (by simp [hnil])
          · rwa [List.getLast?_cons_of_ne_nil hnil] at hlast'
        rw [List.replicate_zero, List.nil_append, fold, if_neg hc, List.append_assoc]
        exact .char (hspell.1 hc).1 (ih more.length (by simp [← hlen]) hspell.2 hlast' _ rfl)
    | succ k =>
      have hsolid (column : Nat) :
          StartsSolid (fold spell guard indent column false more ++ out) := by
        cases more with
        | nil =>
          refine hlast.resolve_left (not_not_intro ?_)
          rw [List.append_nil]
          exact getLast?_blanks k
        | cons d more =>
          have hd : d ≠ ' ' := by simpa using hmore
          obtain ⟨-, hsolid, hne⟩ := hspell.2 d List.mem_cons_self hd
          rw [fold, if_neg hd, List.append_assoc]
          exact hsolid.append hne
      have hlaid (column : Nat) :
          Laid spells (more ++ ds) (fold spell guard indent column false more ++ out) :=
        ih more.length (by simp [← hlen]) hspell.2 hlast' column rfl
      obtain ⟨gap, column', hfold, rfl | ⟨rfl, rfl⟩ | ⟨g, hg, j, rfl, rfl⟩⟩ :=
        fold_blankRun hmore k column
      all_goals rw [hfold, List.append_assoc, List.append_assoc]
      · exact (hlaid _).blanks (k + 1) (hsolid _)
      · exact (hlaid _).folded hindent (hsolid _)
      · obtain ⟨hmark, hgap⟩ := hguard g hg
        have hblanks := (hlaid column').blanks j (hsolid _)
        have hfolded := (hblanks.char hmark).folded hindent (startsSolid_cons hgap)
        simpa [List.replicate_succ] using hfolded

end

-- ---------------------------------------------------------------------------
-- Line ends of the text
-- ---------------------------------------------------------------------------

/-- A text is some characters of a class and what does not begin with one. -/
theorem run_then (p : Char → Bool) (cs : List Char) :
    ∃ front rest, cs = front ++ rest ∧ (∀ d ∈ front, p d = true) ∧
      ∀ d ∈ rest.head?, p d = false := by
  refine ⟨cs.takeWhile p, cs.dropWhile p, List.takeWhile_append_dropWhile.symm,
    fun d => List.mem_takeWhile_imp, ?_⟩
  intro d hd
  have h := List.head?_dropWhile_not p cs
  rw [Option.mem_def.mp hd] at h
  simpa using h

theorem linesOf_line (hcontent : ∀ d ∈ content, isBreak d = false) (hb : isBreak b = true)
    (rest : List Char) : linesOf (content ++ b :: rest) = (content ++ [b]) :: linesOf rest := by
  induction content with
  | nil => simp [linesOf, hb]
  | cons c content ih =>
    rw [List.forall_mem_cons] at hcontent
    simp [linesOf, hcontent.1, ih hcontent.2]

theorem linesOf_open (hcontent : ∀ d ∈ content, isBreak d = false) (hne : content ≠ []) :
    linesOf content = [content] := by
  induction content with
  | nil => exact absurd rfl hne
  | cons c content ih =>
    rw [List.forall_mem_cons] at hcontent
    rw [linesOf, if_neg (by simp [hcontent.1])]
    by_cases hnil : content = []
    · simp [hnil, linesOf]
    · rw [ih hcontent.2 hnil]

section
variable {indent : Nat} {write : List Char → List Char}

theorem indented_cons (line : List Char) (lines : List (List Char)) :
    indented indent write (line :: lines) =
      (if line.head?.all isBreak then line else List.replicate indent ' ' ++ write line) ++
        indented indent write lines := rfl

theorem indented_breaks (hbreaks : ∀ d ∈ breaks, isBreak d = true) (rest : List Char) :
    indented indent write (linesOf (breaks ++ rest)) =
      breaks ++ indented indent write (linesOf rest) := by
  induction breaks with
  | nil => rfl
  | cons b breaks ih =>
    rw [List.forall_mem_cons] at hbreaks
    rw [List.cons_append, linesOf, if_pos hbreaks.1, indented_cons, if_pos (by simp [hbreaks.1]),
      ih hbreaks.2]
    rfl

end

theorem fold_line {spell : Char → List Char} (hlast : content.getLast? ≠ some ' ') (hb : b ≠ ' ')
    (guard : Option Char) (indent column : Nat) (afterBlank : Bool) :
    fold spell guard indent column afterBlank (content ++ [b]) =
      fold spell guard indent column afterBlank content ++ spell b := by
  induction content generalizing column afterBlank with
  | nil => simp [fold, hb]
  | cons c content ih =>
    by_cases hnil : content = []
    · have hc : c ≠ ' ' := by simpa [hnil] using hlast
      simp [hnil, fold, hb, hc]
    · rw [List.getLast?_cons_of_ne_nil hnil] at hlast
      obtain ⟨d, content, rfl⟩ := List.exists_cons_of_ne_nil hnil
      simp only [List.cons_append] at ih ⊢
      rw [fold, fold.eq_2 _ _ _ column afterBlank c (d :: content)]
      by_cases hc : c = ' '
      · rw [if_pos hc, if_pos hc]
        dsimp only
        split
        next hbreak =>
          refine Eq.trans ?_ (congrArg (· ++ spell b) (if_pos hbreak).symm)
          rw [ih hlast]
          exact (List.append_assoc _ _ _).symm
        next hbreak =>
          refine Eq.trans ?_ (congrArg (· ++ spell b) (if_neg hbreak).symm)
          rw [ih hlast]
          rfl
      · rw [if_neg hc, if_neg hc, ih hlast, List.append_assoc]

end SplatLang.Yaml
