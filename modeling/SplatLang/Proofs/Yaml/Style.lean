import SplatLang.Proofs.Yaml.Literal
import SplatLang.Proofs.Yaml.Plain
import SplatLang.Proofs.Yaml.Quoted

/-!
# Styles

What the choice of a style says about a text, for each of the readers of scalars, and that every
style writes shown characters only.
-/

namespace SplatLang.Yaml

/-- What the choice of a style says about a text. -/
theorem styleOf_cases (h : styleOf s = style) :
    style = .double ∨
    (∀ d ∈ s.toList, isShown d = true) ∧ hasPair (· = ' ') isBreak s.toList = false ∧
      (style = .plain ∧ staysText s = true ∧ plainAllowed s.toList = true ∨
        style = .single ∧ '\n' ∉ s.toList ∧ hasPair isBreak (· = ' ') s.toList = false ∨
        style = .literal ∧ '\n' ∈ s.toList) := by
  simp only [styleOf] at h
  split at h
  · exact .inl h.symm
  next hshown =>
    simp only [Bool.or_eq_true, Bool.not_eq_true', not_or, Bool.not_eq_false, List.all_eq_true,
      Bool.not_eq_true] at hshown
    split at h
    next hline =>
      split at h
      · exact .inl h.symm
      · exact .inr ⟨hshown.1, hshown.2, .inr (.inr ⟨h.symm, by simpa using hline⟩)⟩
    next hline =>
      split at h
      · exact .inl h.symm
      next hstays =>
        split at h
        next hallowed =>
          exact .inr ⟨hshown.1, hshown.2, .inl ⟨h.symm, by simpa using hstays, hallowed⟩⟩
        · split at h
          · exact .inl h.symm
          next hpair =>
            exact .inr ⟨hshown.1, hshown.2,
              .inr (.inl ⟨h.symm, by simpa using hline, by simpa using hpair⟩)⟩

theorem PlainText.of_style (h : styleOf s = .plain) :
    PlainText s.toList ∧ PlainFront s.toList ∧ staysText s = true := by
  obtain h | ⟨hshown, -, ⟨-, hstays, hallowed⟩ | ⟨h, -⟩ | ⟨h, -⟩⟩ := styleOf_cases h
  · cases h
  · cases hcs : s.toList with
    | nil =>
      rw [String.toList_eq_nil_iff.mp hcs] at hstays
      exact absurd hstays (by decide)
    | cons c cs =>
      rw [hcs] at hshown hallowed
      obtain ⟨hplain, hfront⟩ := of_allowed hallowed hshown
      exact ⟨hplain, hfront, hstays⟩
  · cases h
  · cases h

theorem no_tab_of_shown {cs : List Char} (h : ∀ d ∈ cs, isShown d = true) : '\t' ∉ cs :=
  fun hd => absurd (h _ hd) (by decide)

theorem SingleText.of_style (h : styleOf s = .single) : SingleText s.toList := by
  obtain h | ⟨hshown, hbefore, ⟨h, -⟩ | ⟨-, hline, hafter⟩ | ⟨h, -⟩⟩ := styleOf_cases h
  · cases h
  · cases h
  · refine ⟨fun d hd => ⟨?_, ?_⟩, ?_, ?_⟩
    · rintro rfl
      exact no_tab_of_shown hshown hd
    · rintro rfl
      exact hline hd
    · simpa using hasPair_eq_false_iff.mp hbefore
    · simpa using hasPair_eq_false_iff.mp hafter
  · cases h

theorem literal_of_style (h : styleOf s = .literal) : s.toList ≠ [] ∧ '\t' ∉ s.toList := by
  obtain h | ⟨hshown, -, ⟨h, -⟩ | ⟨h, -⟩ | ⟨-, hline⟩⟩ := styleOf_cases h
  · cases h
  · cases h
  · cases h
  · exact ⟨List.ne_nil_of_mem hline, no_tab_of_shown hshown⟩

theorem writeValue_literal (h : styleOf s = .literal) (indent column : Nat) :
    writeValue indent column s =
      '|' :: literalHints s.toList ++ '\n' :: blockText indent true (completed s.toList) := by
  have htext := (blockText_eq indent s.toList).1
  have hlast : (literal indent s.toList).getLast? = s.toList.getLast? := by
    obtain ⟨d, hd⟩ : ∃ d, s.toList.getLast? = some d :=
      ⟨_, List.getLast?_eq_some_getLast (literal_of_style h).1⟩
    have hblock := getLast?_blockText indent true s.toList
    rw [literal, ← htext, hd]
    rw [hd] at hblock
    simp [List.getLast?_append, List.getLast?_cons, hblock]
  rw [writeValue, writeText, h]
  simp only [decide_true, Bool.true_and, hlast]
  rw [completed]
  split
  · rw [literal, htext]
  · rw [literal, blockText_append, htext]
    simp [blockText, isBreak]

-- ---------------------------------------------------------------------------
-- Written characters
-- ---------------------------------------------------------------------------

def Shown (cs : List Char) : Prop := ∀ d ∈ cs, isShown d = true

namespace Shown

theorem nil : Shown [] := List.forall_mem_nil _

theorem append (h : Shown cs) (h' : Shown ds) : Shown (cs ++ ds) :=
  List.forall_mem_append.mpr ⟨h, h'⟩

theorem cons (h : isShown d = true) (h' : Shown cs) : Shown (d :: cs) :=
  List.forall_mem_cons.mpr ⟨h, h'⟩

theorem blanks (k : Nat) : Shown (List.replicate k ' ') := by
  intro d hd
  rw [List.eq_of_mem_replicate hd]
  decide

theorem newLine (indent : Nat) : Shown (newLine indent) := cons (by decide) (blanks indent)

theorem flatMap {as : List α} {f : α → List Char} (h : ∀ a ∈ as, Shown (f a)) :
    Shown (as.flatMap f) := by
  intro d hd
  obtain ⟨a, ha, hd⟩ := List.mem_flatMap.mp hd
  exact h a ha d hd

theorem fold {spell : Char → List Char} {guard : Option Char}
    (hspell : ∀ c ∈ cs, c ≠ ' ' → Shown (spell c)) (hguard : ∀ g ∈ guard, isShown g = true)
    (indent column : Nat) (afterBlank : Bool) :
    Shown (fold spell guard indent column afterBlank cs) := by
  induction cs generalizing column afterBlank with
  | nil => exact nil
  | cons c cs ih =>
    rw [List.forall_mem_cons] at hspell
    rw [Yaml.fold]
    dsimp only
    split
    · split
      · refine ((newLine indent).append ?_).append (ih hspell.2 _ _)
        split
        · intro g hg
          exact hguard g (by simpa using hg)
        · exact nil
      · exact cons (by decide) (ih hspell.2 _ _)
    next hc => exact (hspell.1 hc).append (ih hspell.2 _ _)

theorem hexDigits (width n : Nat) : Shown (hexDigits width n) := by
  have hdigit : ∀ d < 16, isShown (Nat.digitChar d).toUpper = true := by decide
  intro d hd
  obtain ⟨k, -, rfl⟩ := List.mem_map.mp hd
  exact hdigit _ (Nat.mod_lt _ (by decide))

theorem escape (c : Char) : Shown (escape c) := by
  refine cons (by decide) ?_
  split
  case h_16 =>
    split
    · exact cons (by decide) (hexDigits _ _)
    split <;> exact cons (by decide) (hexDigits _ _)
  all_goals exact cons (by decide) nil

theorem escaped (c : Char) : Shown (escaped c) := by
  rw [Yaml.escaped]
  split
  next h =>
    simp only [Bool.and_eq_true] at h
    exact cons h.1.1.1 nil
  · exact escape c

theorem doubleQuoted (indent column : Nat) (cs : List Char) :
    Shown (doubleQuoted indent column cs) := by
  refine (cons (by decide) ?_).append (cons (by decide) nil)
  split
  · exact flatMap fun c _ => escape c
  · exact fold (fun c _ _ => escaped c) (by rintro g ⟨⟩; decide) _ _ _

theorem blockText (h : Shown cs) (indent : Nat) (fresh : Bool) :
    Shown (blockText indent fresh cs) := by
  induction cs generalizing fresh with
  | nil => exact nil
  | cons c cs ih =>
    rw [Shown, List.forall_mem_cons] at h
    refine append ?_ (cons h.1 (ih h.2 _))
    split
    · exact blanks indent
    · exact nil

theorem quoteTwice (h : isShown c = true) : Shown (quoteTwice c) := by
  rw [Yaml.quoteTwice]
  split
  · exact cons (by decide) (cons (by decide) nil)
  · exact cons h nil

theorem linesOf (h : Shown cs) : ∀ line ∈ linesOf cs, Shown line := by
  induction cs with
  | nil => exact List.forall_mem_nil _
  | cons c cs ih =>
    rw [Shown, List.forall_mem_cons] at h
    have ih := ih h.2
    rw [Yaml.linesOf]
    split
    · exact List.forall_mem_cons.mpr ⟨cons h.1 nil, ih⟩
    · split
      · exact List.forall_mem_singleton.mpr (cons h.1 nil)
      next hlines =>
        rw [hlines, List.forall_mem_cons] at ih
        exact List.forall_mem_cons.mpr ⟨cons h.1 ih.1, ih.2⟩

theorem singleQuoted (h : Shown cs) (indent column : Nat) :
    Shown (singleQuoted indent column cs) := by
  have hfold (line : List Char) (hline : Shown line) (column : Nat) :
      Shown (Yaml.fold Yaml.quoteTwice none indent column false line) :=
    fold (fun c hc _ => quoteTwice (hline c hc)) (by simp) _ _ _
  have hlines := linesOf h
  rw [singleQuoted_eq, singleLines]
  refine (cons (by decide) ?_).append (cons (by decide) nil)
  split
  · exact nil
  next line lines heq =>
    rw [heq, List.forall_mem_cons] at hlines
    refine (hfold line hlines.1 _).append (flatMap fun line hline => ?_)
    split
    · exact hlines.2 line hline
    · exact (blanks indent).append (hfold line (hlines.2 line hline) _)

theorem literalHints (cs : List Char) : Shown (literalHints cs) := by
  refine append ?_ ?_
  · split
    · exact cons (by decide) nil
    · exact nil
  · split
    · exact cons (by decide) nil
    · split
      · exact cons (by decide) nil
      split
      · exact cons (by decide) nil
      · exact nil

/-- Whatever the style, only shown characters are written. -/
theorem writeValue (indent column : Nat) (s : String) : Shown (writeValue indent column s) := by
  obtain h | ⟨hshown, -, h⟩ := styleOf_cases (s := s) rfl
  · rw [Yaml.writeValue, writeText, h]
    exact (doubleQuoted _ _ _).append (cons (by decide) nil)
  · rcases h with ⟨h, -⟩ | ⟨h, -⟩ | ⟨h, -⟩
    · rw [Yaml.writeValue, writeText, h]
      refine append ?_ (cons (by decide) nil)
      exact fold (fun c hc _ => cons (hshown c hc) nil) (by simp) _ _ _
    · rw [Yaml.writeValue, writeText, h]
      exact (singleQuoted hshown _ _).append (cons (by decide) nil)
    · rw [writeValue_literal h]
      refine (cons (by decide) (literalHints _)).append (cons (by decide) (blockText ?_ _ _))
      rw [completed]
      split
      · exact hshown
      · exact append hshown (cons (by decide) nil)

end Shown

end SplatLang.Yaml
