import SplatLang.Yaml.Scalar

/-!
# Moving through a document

What matters of a cursor is the text ahead and the column. A gap is passed character by character:
behind its last line end the column counts the blanks that follow.
-/

namespace SplatLang.Yaml

def StartsSolid (cs : List Char) : Prop := ∀ d ∈ cs.head?, isGap d = false

theorem startsSolid_nil : StartsSolid [] := by simp [StartsSolid]

theorem startsSolid_cons (h : isGap d = false) : StartsSolid (d :: cs) := by
  simpa [StartsSolid] using h

theorem StartsSolid.of_cons (h : StartsSolid (d :: cs)) : isGap d = false := h d rfl

theorem StartsSolid.append (h : StartsSolid cs) (hne : cs ≠ []) : StartsSolid (cs ++ ds) := by
  obtain ⟨c, cs, rfl⟩ := List.exists_cons_of_ne_nil hne
  exact h

theorem isGap_of_isBreak (h : isBreak d = true) : isGap d = true := by simp [isGap, h]

theorem ne_blank (h : isGap d = false) : d ≠ ' ' := by
  rintro rfl
  cases h

theorem not_isBreak (h : isGap d = false) : isBreak d = false :=
  (Bool.or_eq_false_iff.mp h).2

theorem takeWhile_run {p : Char → Bool} {cs ds : List Char} (h : ∀ d ∈ cs, p d = true)
    (hp : ∀ d ∈ ds.head?, p d = false) : (cs ++ ds).takeWhile p = cs := by
  rw [List.takeWhile_append_of_pos h]
  cases ds with
  | nil => simp
  | cons d ds => simp [hp d rfl]

namespace Cursor

@[simp] theorem skip_rest (n : Nat) (c : Cursor) : (c.skip n).rest = c.rest.drop n := rfl
@[simp] theorem skip_column (n : Nat) (c : Cursor) : (c.skip n).column = c.column + n := rfl
@[simp] theorem skip_line (n : Nat) (c : Cursor) : (c.skip n).line = c.line := rfl
@[simp] theorem skip_index (n : Nat) (c : Cursor) : (c.skip n).index = c.index + n := rfl
@[simp] theorem nextLine_rest (c : Cursor) : c.nextLine.rest = c.rest.drop 1 := rfl
@[simp] theorem nextLine_column (c : Cursor) : c.nextLine.column = 0 := rfl

@[simp] theorem skip_zero (c : Cursor) : c.skip 0 = c := by simp [skip]

theorem skip_skip (m n : Nat) (c : Cursor) : (c.skip m).skip n = c.skip (m + n) := by
  simp [skip, Nat.add_assoc]

theorem atMark_eq_false {c : Cursor} (h : 0 < c.column) : c.atMark = false := by
  simp [atMark, Nat.ne_of_gt h]

theorem atMark_of_front {c : Cursor} (h : c.rest = d :: more) (hd : d ≠ '-' ∧ d ≠ '.') :
    c.atMark = false := by
  have hdash : "---".toList ≠ c.rest.take 3 := by
    rw [h]
    intro heq
    exact hd.1 (List.cons.inj heq).1.symm
  have hdots : "...".toList ≠ c.rest.take 3 := by
    rw [h]
    intro heq
    exact hd.2 (List.cons.inj heq).1.symm
  simp only [atMark, List.contains_cons, List.contains_nil, Bool.or_false, Bool.and_eq_false_iff,
    Bool.or_eq_false_iff, beq_eq_false_iff_ne]
  exact .inl (.inr ⟨hdash.symm, hdots.symm⟩)

-- ---------------------------------------------------------------------------
-- Gaps
-- ---------------------------------------------------------------------------

def past (g : List Char) (c : Cursor) : Cursor :=
  g.foldl (fun here d => if isBreak d then here.nextLine else here.skip 1) c

theorem past_cons (d : Char) (g : List Char) (c : Cursor) :
    c.past (d :: g) = (if isBreak d then c.nextLine else c.skip 1).past g := rfl

theorem past_rest (g : List Char) (c : Cursor) : (c.past g).rest = c.rest.drop g.length := by
  induction g generalizing c with
  | nil => rfl
  | cons d g ih =>
    rw [past_cons, ih]
    split <;> simp

theorem past_blanks (k : Nat) (c : Cursor) : c.past (List.replicate k ' ') = c.skip k := by
  induction k generalizing c with
  | zero => simp [past, skip]
  | succ k ih =>
    rw [List.replicate_succ, past_cons, if_neg (by decide), ih, skip_skip, Nat.add_comm]

theorem past_append (g h : List Char) (c : Cursor) : c.past (g ++ h) = (c.past g).past h :=
  List.foldl_append

theorem past_newLine (k : Nat) (c : Cursor) :
    c.past ('\n' :: List.replicate k ' ') = c.nextLine.skip k := by
  rw [past_cons, if_pos (by decide), past_blanks]

/-- Behind a blank the column is not the first one. -/
theorem past_column_pos {g : List Char} (h : g.getLast? = some ' ') (c : Cursor) :
    0 < (c.past g).column := by
  obtain ⟨front, rfl⟩ := List.getLast?_eq_some_iff.mp h
  rw [past_append, show [' '] = List.replicate 1 ' ' from rfl, past_blanks]
  exact Nat.succ_pos _

theorem run_gap {c : Cursor} (h : c.rest = g ++ more) (hg : ∀ d ∈ g, isGap d = true)
    (hmore : StartsSolid more) : c.run isGap = g := by
  rw [run, h]
  exact takeWhile_run hg hmore

theorem skipGap_eq {c : Cursor} (h : c.rest = g ++ more) (hg : ∀ d ∈ g, isGap d = true)
    (hmore : StartsSolid more) : c.skipGap = c.past g := by
  rw [skipGap, run_gap h hg hmore]
  rfl

end Cursor

end SplatLang.Yaml
