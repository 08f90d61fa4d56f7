import SplatLang.Proofs.Yaml.Layout
import SplatLang.Yaml.Lexer

/-!
# Literal blocks

A literal block keeps its lines and indents those that are not empty. The reader finds the
indentation at the first line, or is told it if that line begins with a blank or is empty, and the
mark behind the block's own mark says what becomes of the line ends at its end.
-/

namespace SplatLang.Yaml

/-- The lines of a block, character by character; `fresh` tells whether a line begins. -/
def blockText (indent : Nat) : (fresh : Bool) → List Char → List Char
  | _, [] => []
  | fresh, c :: rest =>
    (if fresh && !isBreak c then List.replicate indent ' ' else []) ++
      c :: blockText indent (isBreak c) rest

theorem blockText_eq (indent : Nat) (cs : List Char) :
    blockText indent true cs = indented indent id (linesOf cs) ∧
      blockText indent false cs = match linesOf cs with
        | [] => []
        | line :: lines => line ++ indented indent id lines := by
  induction cs with
  | nil => exact ⟨rfl, rfl⟩
  | cons c cs ih =>
    cases hc : isBreak c with
    | true => simp [blockText, linesOf, hc, ih.1, indented_cons]
    | false =>
      simp only [blockText, linesOf, hc, ih.2]
      cases linesOf cs with
      | nil => simp [indented, hc]
      | cons line lines => simp [indented_cons, hc]

theorem blockText_breaks (h : ∀ d ∈ breaks, isBreak d = true) (indent : Nat) (rest : List Char) :
    blockText indent true (breaks ++ rest) = breaks ++ blockText indent true rest := by
  induction breaks with
  | nil => rfl
  | cons b breaks ih =>
    rw [List.forall_mem_cons] at h
    simp [blockText, h.1, ih h.2]

theorem blockText_line (h : ∀ d ∈ content, isBreak d = false) (hb : isBreak b = true)
    (indent : Nat) (rest : List Char) :
    blockText indent false (content ++ b :: rest) =
      content ++ b :: blockText indent true rest := by
  induction content with
  | nil => simp [blockText, hb]
  | cons c content ih =>
    rw [List.forall_mem_cons] at h
    simp [blockText, h.1, ih h.2]

theorem blockText_fresh (h : ∀ x ∈ d :: content, isBreak x = false) (hb : isBreak b = true)
    (indent : Nat) (rest : List Char) :
    blockText indent true (d :: content ++ b :: rest) =
      List.replicate indent ' ' ++ (d :: content ++ b :: blockText indent true rest) := by
  rw [List.forall_mem_cons] at h
  rw [List.cons_append, blockText, h.1, blockText_line h.2 hb]
  rfl

theorem blockText_append (indent : Nat) (fresh : Bool) (cs ds : List Char) :
    blockText indent fresh (cs ++ ds) =
      blockText indent fresh cs ++ blockText indent (cs.getLast?.elim fresh isBreak) ds := by
  induction cs generalizing fresh with
  | nil => rfl
  | cons c cs ih =>
    have hlast : (c :: cs).getLast?.elim fresh isBreak = cs.getLast?.elim (isBreak c) isBreak := by
      cases cs with
      | nil => rfl
      | cons d cs => simp [List.getLast?_cons]
    rw [hlast, List.cons_append, blockText, blockText, ih, List.append_assoc, List.cons_append]

theorem getLast?_blockText (indent : Nat) (fresh : Bool) (cs : List Char) :
    (blockText indent fresh cs).getLast? = cs.getLast? := by
  rcases List.eq_nil_or_concat cs with rfl | ⟨front, d, rfl⟩
  · rfl
  · rw [List.concat_eq_append, blockText_append]
    simp [blockText, List.getLast?_append]

theorem length_le_blockText (indent : Nat) (fresh : Bool) (cs : List Char) :
    cs.length ≤ (blockText indent fresh cs).length := by
  induction cs generalizing fresh with
  | nil => simp
  | cons c cs ih =>
    have h := ih (isBreak c)
    simp only [blockText, List.length_append, List.length_cons]
    omega

theorem Cursor.past_breaks (h : ∀ d ∈ breaks, isBreak d = true) {c : Cursor} (hc : c.column = 0) :
    (c.past breaks).column = 0 := by
  induction breaks generalizing c with
  | nil => exact hc
  | cons b breaks ih =>
    rw [List.forall_mem_cons] at h
    rw [past_cons, if_pos h.1]
    exact ih h.2 rfl

-- ---------------------------------------------------------------------------
-- Empty lines and indentation
-- ---------------------------------------------------------------------------

/-- What stands behind the indentation of a line: a line of the block that is fully indented, or
something that stands further to the left. -/
def Behind (indent k : Nat) (more : List Char) : Prop :=
  k = indent ∧ (∀ d ∈ more.head?, isBreak d = false) ∨ k < indent ∧ StartsSolid more

namespace Behind

theorem indentation (h : Behind indent k more) :
    min ((List.replicate k ' ' ++ more).takeWhile (· = ' ')).length indent = k := by
  rw [List.takeWhile_append_of_pos (by simp), List.length_append, List.length_replicate]
  rcases h with ⟨rfl, -⟩ | ⟨hlt, hsolid⟩
  · omega
  · cases more with
    | nil => simp; omega
    | cons d more =>
      have hd := ne_blank hsolid.of_cons
      simp [hd]
      omega

theorem no_tab (h : Behind indent k more) :
    (more.head?.any (· = '\t') && decide (k < indent)) = false := by
  rcases h with ⟨rfl, -⟩ | ⟨-, hsolid⟩
  · simp
  · cases more with
    | nil => rfl
    | cons d more =>
      have hd : d ≠ '\t' := by
        rintro rfl
        cases hsolid.of_cons
      simp [hd]

theorem no_break (h : Behind indent k (d :: more)) : isBreak d = false := by
  rcases h with ⟨-, hbreak⟩ | ⟨-, hsolid⟩
  · exact hbreak d rfl
  · exact not_isBreak hsolid.of_cons

end Behind

theorem blockBreaks?_breaks (hbreaks : ∀ d ∈ breaks, isBreak d = true)
    (hbehind : Behind indent k more) (hcolumn : c.column = 0)
    (hc : c.rest = breaks ++ (List.replicate k ' ' ++ more)) (hn : breaks.length < n) (most : Nat) :
    ∃ width,
      blockBreaks? (some indent) n most c = some (width, breaks, (c.past breaks).skip k) := by
  induction breaks generalizing n most c with
  | nil =>
    obtain ⟨n, rfl⟩ := Nat.exists_eq_succ_of_ne_zero (Nat.ne_of_gt hn)
    rw [List.nil_append] at hc
    have hrest : (c.skip k).rest = more := by simp [hc]
    have htab : ((c.skip k).startsWith '\t' && decide ((c.skip k).column < indent)) = false := by
      rw [Cursor.startsWith, Cursor.aheadIs, hrest, Cursor.skip_column, hcolumn, Nat.zero_add]
      exact hbehind.no_tab
    refine ⟨max most (c.skip k).column, ?_⟩
    rw [blockBreaks?]
    simp only [Option.elim_some, Cursor.run, hc, hcolumn, Nat.sub_zero, hbehind.indentation,
      Option.all_some, htab, Bool.false_eq_true, if_false, hrest]
    cases more with
    | nil => rfl
    | cons d more => simp [hbehind.no_break, Cursor.past]
  | cons b breaks ih =>
    obtain ⟨n, rfl⟩ := Nat.exists_eq_succ_of_ne_zero (Nat.ne_of_gt (Nat.zero_lt_of_lt hn))
    rw [List.forall_mem_cons] at hbreaks
    have hb : b ≠ ' ' ∧ b ≠ '\t' := by
      constructor <;> rintro rfl <;> exact absurd hbreaks.1 (by decide)
    obtain ⟨width, hread⟩ := @ih n c.nextLine hbreaks.2 rfl (by simp [hc])
      (by simpa using hn) (max most c.column)
    refine ⟨width, ?_⟩
    have hrun : c.run (· = ' ') = [] := by simp [Cursor.run, hc, hb.1]
    have htab : c.startsWith '\t' = false := by simp [Cursor.startsWith, Cursor.aheadIs, hc, hb.2]
    rw [blockBreaks?]
    simp only [Option.elim_some, hrun, List.length_nil, Nat.zero_min, Cursor.skip_zero, htab,
      Bool.false_and, Bool.false_eq_true, if_false]
    simp [hc, hbreaks.1, hread, Cursor.past_cons]

-- ---------------------------------------------------------------------------
-- Lines
-- ---------------------------------------------------------------------------

def Complete (cs : List Char) : Prop := ∀ d ∈ cs.getLast?, isBreak d = true

def EndsOnce (cs : List Char) : Prop := cs = [] ∨ cs.reverse.tail.head?.all isBreak = false

/-- Lines are empty ones, perhaps with a line behind them that is not. -/
theorem Complete.cases_line (h : Complete cs) :
    ∃ breaks, (∀ d ∈ breaks, isBreak d = true) ∧
      (cs = breaks ∨ ∃ d content b rest, cs = breaks ++ (d :: content ++ b :: rest) ∧
        (∀ x ∈ d :: content, isBreak x = false) ∧ isBreak b = true ∧ Complete rest) := by
  obtain ⟨breaks, rest, rfl, hbreaks, hrest⟩ := run_then isBreak cs
  refine ⟨breaks, hbreaks, ?_⟩
  cases rest with
  | nil => exact .inl (by simp)
  | cons d rest =>
    obtain ⟨content, tail, rfl, hcontent, htail⟩ := run_then (!isBreak ·) rest
    have hline : ∀ x ∈ d :: content, isBreak x = false := by
      rw [List.forall_mem_cons]
      exact ⟨hrest d rfl, by simpa using hcontent⟩
    cases tail with
    | nil =>
      -- A last line without an end would not be complete.
      have hlast := List.getLast?_eq_some_getLast (List.cons_ne_nil d content)
      have hbreak := h _ (by rwa [List.append_nil, List.getLast?_append_of_ne_nil _ (by simp)])
      rw [hline _ (List.mem_of_getLast? hlast)] at hbreak
      cases hbreak
    | cons b tail =>
      refine .inr ⟨d, content, b, tail, rfl, hline, by simpa using htail b rfl, ?_⟩
      intro x hx
      refine h x ?_
      have hne : tail ≠ [] := by
        rintro rfl
        cases hx
      rwa [List.getLast?_append_of_ne_nil _ (by simp), ← List.cons_append,
        List.getLast?_append_of_ne_nil _ (by simp), List.getLast?_cons_of_ne_nil hne]

namespace EndsOnce

theorem of_append (h : EndsOnce (front ++ b :: cs)) (hb : isBreak b = true) : EndsOnce cs := by
  rcases List.eq_nil_or_concat cs with rfl | ⟨cs, d, rfl⟩
  · exact .inl rfl
  · refine .inr ?_
    have hall := h.resolve_left (by simp)
    rcases List.eq_nil_or_concat cs with rfl | ⟨cs, e, rfl⟩
    · simp [hb] at hall
    · simpa using hall

theorem eq_nil (h : EndsOnce cs) (hbreaks : ∀ d ∈ cs, isBreak d = true) : cs = [] := by
  refine h.resolve_right ?_
  cases htail : cs.reverse.tail with
  | nil => simp
  | cons d tail =>
    have hmem : d ∈ cs.reverse.tail := by simp [htail]
    simp [hbreaks d (List.mem_reverse.mp (List.mem_of_mem_tail hmem))]

end EndsOnce

def Chomp.cut (cs : List Char) : Chomp → List Char
  | strip => cs.dropLast
  | clip => cs
  | keep => cs

/-- One line of a literal block. -/
theorem blockLines?_line (hline : ∀ x ∈ d :: content, isBreak x = false) (hb : isBreak b = true)
    (hcolumn : c.column = indent) (hc : c.rest = d :: content ++ b :: more)
    (hbreaks : blockBreaks? (some indent) (c.rest.length + 1) 0
      (c.skip (d :: content).length).nextLine = some (width, nextBreaks, ahead))
    (hmore : blockLines? false chomp indent n [b] (c.aheadIs 0 isBlank) nextBreaks ahead =
      some (text, after)) :
    blockLines? false chomp indent (n + 1) lineEnd afterBlank breaks c =
      some (lineEnd ++ breaks ++ (d :: content) ++ text, after) := by
  have hrun : c.run (!isBreak ·) = d :: content := by
    rw [Cursor.run, hc]
    exact takeWhile_run (by simpa using hline) (by simp [hb])
  have hstop : (c.skip (d :: content).length).rest = b :: more := by
    rw [Cursor.skip_rest, hc, List.drop_left]
  have hne : c.rest.isEmpty = false := by simp [hc]
  rw [blockLines?]
  simp only [hcolumn, hne, Bool.not_false, Bool.and_true, decide_true, if_true, Bool.false_and,
    Bool.false_eq_true, if_false, hrun, hstop, List.isEmpty_cons, hbreaks, List.take_succ_cons,
    List.take_zero, Option.bind_eq_bind, Option.bind_some, hmore]

theorem Chomp.cut_append (chomp : Chomp) (hne : ds ≠ []) :
    chomp.cut (cs ++ ds) = cs ++ chomp.cut ds := by
  cases chomp with
  | strip => exact List.dropLast_append_of_ne_nil hne
  | clip => rfl
  | keep => rfl

theorem Chomp.tail_eq_cut {chomp : Chomp} (hends : chomp = .keep ∨ breaks = [])
    (hlineEnd : lineEnd.length ≤ 1) :
    chomp.tail lineEnd breaks = chomp.cut (lineEnd ++ breaks) := by
  cases chomp with
  | strip =>
    obtain rfl := hends.resolve_left (by simp)
    refine (List.eq_nil_of_length_eq_zero ?_).symm
    simp only [cut, List.append_nil, List.length_dropLast]
    omega
  | clip =>
    obtain rfl := hends.resolve_left (by simp)
    simp [tail, cut]
  | keep => rfl

/-- Empty lines at the end of a block, and the line behind it that stands further to the left. -/
theorem blockLines?_end (hbreaks : ∀ d ∈ breaks, isBreak d = true)
    (hends : chomp = .keep ∨ EndsOnce breaks) (hj : j < indent) (hcolumn : c.column = j)
    (hlineEnd : lineEnd.length ≤ 1) :
    blockLines? false chomp indent (n + 1) lineEnd afterBlank breaks c =
      some (chomp.cut (lineEnd ++ breaks), c) := by
  have hne : ¬j = indent := Nat.ne_of_lt hj
  rw [blockLines?]
  simp only [hcolumn, hne, decide_false, Bool.false_and, Bool.false_eq_true, if_false]
  rw [Chomp.tail_eq_cut (hends.imp_right (·.eq_nil hbreaks)) hlineEnd]

/-- The lines of a block are read back up to what stands further to the left. -/
theorem blockLines?_block (hcomplete : Complete cs) (hends : chomp = .keep ∨ EndsOnce cs)
    (hj : j < indent) (hmore : StartsSolid more) (hcolumn : c.column = 0)
    (hc : c.rest = blockText indent true cs ++ (List.replicate j ' ' ++ more))
    (hlineEnd : lineEnd.length ≤ 1) (hm : cs.length < m) (hn : cs.length < n) (most : Nat)
    (afterBlank : Bool) :
    ∃ width breaks ahead after,
      blockBreaks? (some indent) m most c = some (width, breaks, ahead) ∧
      blockLines? false chomp indent n lineEnd afterBlank breaks ahead =
        some (chomp.cut (lineEnd ++ cs), after) ∧
      after.column = j ∧ after.rest = more := by
  -- Empty lines and one line behind them are taken at a time. The end of a line is only given out
  -- with the next one, so the claim is about what the last line left, too.
  induction hlen : cs.length using Nat.strongRecOn
    generalizing cs c m n most lineEnd afterBlank with
  | ind len ih =>
    obtain ⟨n, rfl⟩ := Nat.exists_eq_succ_of_ne_zero (Nat.ne_of_gt (Nat.zero_lt_of_lt hn))
    obtain ⟨breaks, hbreaks, rfl | ⟨d, content, b, rest, rfl, hline, hb, hrest⟩⟩ :=
      hcomplete.cases_line
    · have htext := blockText_breaks hbreaks indent []
      rw [List.append_nil, blockText, List.append_nil] at htext
      rw [htext] at hc
      obtain ⟨width, hread⟩ := blockBreaks?_breaks hbreaks (.inr ⟨hj, hmore⟩) hcolumn hc hm most
      have hcolumn' : ((c.past cs).skip j).column = j := by
        rw [Cursor.skip_column, Cursor.past_breaks hbreaks hcolumn, Nat.zero_add]
      refine ⟨width, cs, (c.past cs).skip j, (c.past cs).skip j, hread, ?_, hcolumn', ?_⟩
      · exact blockLines?_end hbreaks hends hj hcolumn' hlineEnd
      · simp [Cursor.past_rest, hc]
    · rw [blockText_breaks hbreaks, blockText_fresh hline hb, List.append_assoc,
        List.append_assoc] at hc
      have hbehind : Behind indent indent (d :: content ++ b :: blockText indent true rest ++
          (List.replicate j ' ' ++ more)) :=
        .inl ⟨rfl, by simpa using hline d List.mem_cons_self⟩
      simp only [List.length_append, List.length_cons] at hm hn hlen
      obtain ⟨width, hread⟩ := blockBreaks?_breaks hbreaks hbehind hcolumn hc
        (show breaks.length < m by omega) most
      have hahead : ((c.past breaks).skip indent).rest =
          d :: content ++ b :: (blockText indent true rest ++ (List.replicate j ' ' ++ more)) := by
        simp [Cursor.past_rest, hc]
      have hcolumn' : ((c.past breaks).skip indent).column = indent := by
        rw [Cursor.skip_column, Cursor.past_breaks hbreaks hcolumn, Nat.zero_add]
      generalize (c.past breaks).skip indent = ahead at hread hahead hcolumn'
      have hnext : (ahead.skip (d :: content).length).nextLine.rest =
          blockText indent true rest ++ (List.replicate j ' ' ++ more) := by
        simp [hahead]
      have hlong : rest.length < ahead.rest.length + 1 := by
        have := length_le_blockText indent true rest
        simp only [hahead, List.length_append, List.length_cons]
        omega
      have hends' : chomp = .keep ∨ EndsOnce rest := by
        refine hends.imp_right fun h => ?_
        rw [← List.append_assoc] at h
        exact h.of_append hb
      obtain ⟨_, nextBreaks, next, after, hnext, hlines, hafter⟩ :=
        ih rest.length (by omega) hrest hends' rfl hnext (Nat.le_refl [b].length) hlong
          (show rest.length < n by omega) 0 (ahead.aheadIs 0 isBlank) rfl
      refine ⟨width, breaks, ahead, after, hread, ?_, hafter⟩
      rw [blockLines?_line hline hb hcolumn' hahead hnext hlines,
        ← Chomp.cut_append chomp (by simp)]
      simp

-- ---------------------------------------------------------------------------
-- The mark of a block
-- ---------------------------------------------------------------------------

def Chomp.mark : Chomp → List Char
  | strip => ['-']
  | clip => []
  | keep => ['+']

def completed (cs : List Char) : List Char :=
  if cs.getLast?.any isBreak then cs else cs ++ ['\n']

/-- The mark tells the reader how to undo the end that was added. -/
theorem literalHints_eq (hne : cs ≠ []) :
    ∃ chomp : Chomp,
      literalHints cs =
        (if cs.head?.any (fun c => c = ' ' || isBreak c) then ['2'] else []) ++ chomp.mark ∧
      Complete (completed cs) ∧ (chomp = .keep ∨ EndsOnce (completed cs)) ∧
      chomp.cut (completed cs) = cs := by
  obtain ⟨front, d, rfl⟩ := (List.eq_nil_or_concat cs).resolve_left hne
  rw [List.concat_eq_append]
  cases hd : isBreak d with
  | false =>
    have hcompleted : completed (front ++ [d]) = front ++ [d] ++ ['\n'] := by simp [completed, hd]
    rw [hcompleted]
    refine ⟨.strip, by simp [literalHints, Chomp.mark, hd], ?_, .inr (.inr ?_), ?_⟩
    · simp [Complete, isBreak]
    · simp [hd]
    · simp [Chomp.cut]
  | true =>
    have hcompleted : completed (front ++ [d]) = front ++ [d] := by simp [completed, hd]
    have hcomplete : Complete (front ++ [d]) := by simpa [Complete] using hd
    rw [hcompleted]
    cases hbefore : front.reverse.head?.all isBreak with
    | true => exact ⟨.keep, by simp_all [literalHints, Chomp.mark], hcomplete, .inl rfl, rfl⟩
    | false =>
      refine ⟨.clip, by simp_all [literalHints, Chomp.mark], hcomplete, .inr (.inr ?_), rfl⟩
      simpa using hbefore

theorem blockHeader_marks {c : Cursor} (chomp : Chomp) (given : Bool)
    (hc : c.rest = (if given then ['2'] else []) ++ chomp.mark ++ '\n' :: more) :
    ∃ behind, blockHeader c = (chomp, if given then some 2 else none, behind) ∧
      behind.rest = '\n' :: more := by
  cases given <;> cases chomp <;>
    simp [blockHeader, chompMark?, indentMark?, Chomp.mark, hc] at hc ⊢

theorem finishLine?_newLine {c : Cursor} (hc : c.rest = '\n' :: more) :
    ∃ body, c.finishLine? = some body ∧ body.column = 0 ∧ body.rest = more := by
  have hskip : c.skipRun isBlank = c := by simp [Cursor.skipRun, Cursor.run, hc, isBlank]
  have hremark : c.skipRemark = c := by
    simp [Cursor.skipRemark, Cursor.startsWith, Cursor.aheadIs, hc]
  refine ⟨c.nextLine, ?_, rfl, by simp [hc]⟩
  rw [Cursor.finishLine?, hskip, hremark]
  simp [hc, isBreak]

/-- The indentation is found at the first line. -/
theorem blockBreaks?_detect {c : Cursor} (hd : isGap d = false) (hcolumn : c.column = 0)
    (hc : c.rest = List.replicate indent ' ' ++ d :: more) (n : Nat) :
    blockBreaks? none (n + 1) 0 c = some (indent, [], c.skip indent) := by
  have hrun : c.run (· = ' ') = List.replicate indent ' ' := by
    rw [Cursor.run, hc]
    exact takeWhile_run (by simp) (by simpa using ne_blank hd)
  have hrest : c.rest.drop indent = d :: more := by simp [hc]
  have htab : (c.skip indent).startsWith '\t' = false := by
    have hd' : d ≠ '\t' := by
      rintro rfl
      cases hd
    simp [Cursor.startsWith, Cursor.aheadIs, hc, hd']
  rw [blockBreaks?]
  simp [hrun, htab, hrest, not_isBreak hd, hcolumn]

/-- A literal block is read back. -/
theorem blockScalar?_literal (hne : cs ≠ []) (htab : '\t' ∉ cs) (hj : j < least)
    (hmore : StartsSolid more)
    (hc : c.rest = literalHints cs ++ '\n' :: (blockText (least + 1) true (completed cs) ++
      (List.replicate j ' ' ++ more))) :
    ∃ after, blockScalar? false least c = some (cs, after) ∧ after.column = j ∧
      after.rest = more := by
  obtain ⟨chomp, hhints, hcomplete, hends, hcut⟩ := literalHints_eq hne
  rw [hhints] at hc
  obtain ⟨behind, hheader, hbehind⟩ := blockHeader_marks chomp _ hc
  obtain ⟨body, hfinish, hcolumn, hbody⟩ := finishLine?_newLine hbehind
  have hlong : (completed cs).length < body.rest.length + 1 := by
    have := length_le_blockText (least + 1) true (completed cs)
    simp only [hbody, List.length_append]
    omega
  obtain ⟨width, breaks, ahead, after, hbreaks, hlines, hafter⟩ :=
    blockLines?_block hcomplete hends (Nat.lt_add_right 1 hj) hmore hcolumn hbody
      (show ([] : List Char).length ≤ 1 by simp) hlong hlong 0 false
  rw [List.nil_append, hcut] at hlines
  refine ⟨after, ?_, hafter⟩
  rw [blockScalar?, hheader]
  cases hgiven : cs.head?.any (fun c => c = ' ' || isBreak c) with
  | true =>
    have hwanted : least - 1 + 2 = least + 1 := by omega
    simp [hfinish, hwanted, hbreaks, hlines]
  | false =>
    obtain ⟨d, cs, rfl⟩ := List.exists_cons_of_ne_nil hne
    have hd : isGap d = false := by
      have htab' : d ≠ '\t' := fun h => htab (h ▸ List.mem_cons_self)
      simp at hgiven
      simp [isGap, isBlank, hgiven, htab']
    obtain ⟨tail, htail⟩ : ∃ tail, completed (d :: cs) = d :: tail := by
      rw [completed]
      split <;> exact ⟨_, rfl⟩
    rw [htail, blockText, if_pos (by simp [not_isBreak hd]), List.append_assoc,
      List.cons_append] at hbody
    -- With the indentation known, the reader would have stopped at the same place.
    have hfront (rest : List Char) : Behind (least + 1) (least + 1) (d :: rest) :=
      .inl ⟨rfl, by simpa using not_isBreak hd⟩
    obtain ⟨_, hknown⟩ := blockBreaks?_breaks (List.forall_mem_nil _) (hfront _) hcolumn hbody
      (Nat.succ_pos body.rest.length) 0
    rw [hbreaks] at hknown
    obtain ⟨-, rfl, rfl⟩ : _ ∧ breaks = [] ∧ ahead = body.skip (least + 1) := by
      simpa [Cursor.past] using hknown
    have hmost : max (max (least + 1) least) 1 = least + 1 := by omega
    simp only [Bool.false_eq_true, if_false, reduceCtorEq, hfinish, Option.map_none,
      Option.getD_none, Option.bind_eq_bind, Option.bind_some, blockBreaks?_detect hd hcolumn hbody,
      hmost, hlines]

end SplatLang.Yaml
