import SplatLang.Proofs.Yaml.Lexer
import SplatLang.Yaml.Reader

/-!
# The tokens of written fields

Written fields are cut into the tokens that one expects of them. The lines of a field are passed
wherever they stand: `Passes` says so for any lines at a column, with blocks still open to the right
of it, and is put together from one law for each kind of field.
-/

namespace SplatLang.Yaml

/-- A value that is written as it is spelled has to be a word, and not only a dash. -/
def IsWord (word : List Char) : Prop :=
  (∀ d ∈ word, isWordChar d = true) ∧ PlainFront word

mutual

/-- Keys and words are such, and no group is empty. -/
def Field.Proper : Field → Prop
  | .text key _ => Lexer.IsKey key.toList
  | .word key value => Lexer.IsKey key.toList ∧ IsWord value.toList
  | .group key fields => Lexer.IsKey key.toList ∧ fields ≠ [] ∧ ProperFields fields

def ProperFields : List Field → Prop
  | [] => True
  | f :: fs => f.Proper ∧ ProperFields fs

end

mutual

def Field.tokens : Field → List Token
  | .text key value => [.key, .scalar true key, .value, .scalar (styleOf value = .plain) value]
  | .word key value => [.key, .scalar true key, .value, .scalar true value]
  | .group key fields =>
    [.key, .scalar true key, .value, .blockMapping] ++ fieldTokens fields ++ [.blockEnd]

def fieldTokens : List Field → List Token
  | [] => []
  | f :: fs => f.tokens ++ fieldTokens fs

end

namespace Lexer

variable {s : Source}

def Begins (i : Nat) (text : List Char) : Prop :=
  ∃ rest, text = List.replicate i ' ' ++ rest ∧ TokenFront rest ∧ rest ≠ []

theorem Begins.follows (h : Begins i text) (ahead : List Char) :
    ∃ more, Follows i (text ++ ahead) i more := by
  obtain ⟨rest, rfl, hrest, hne⟩ := h
  obtain ⟨d, rest, rfl⟩ := List.exists_cons_of_ne_nil hne
  exact ⟨d :: rest ++ ahead, List.append_assoc .., hrest, Nat.le_refl i⟩

/-- Wherever the lines `text` stand at a column, the lexer passes them and reads the tokens. -/
def Passes (s : Source) (i : Nat) (text : List Char) (out : List Token) : Prop :=
  ∀ c cols allowed ts cols' ts' cols'' opening ahead j more, Sees (text ++ ahead) allowed c →
    Follows i ahead j more → Closes i cols ts cols' ts' → Opens i cols' cols'' opening →
    ∃ c' allowed' cols₁ ts₁,
      Relation.ReflTransGen (Advances s) (between c cols allowed ts)
        (between c' cols₁ allowed' ts₁) ∧
      Sees ahead allowed' c' ∧ Closes i cols₁ ts₁ cols'' (out.reverse ++ (opening ++ ts'))

theorem Passes.append (h : Passes s i text out) (h' : Passes s i text' out')
    (hfront : Begins i text') :
    Passes s i (text ++ text') (out ++ out') := by
  intro c cols allowed ts cols' ts' cols'' opening ahead j more hsees hfollows hcloses hopens
  rw [List.append_assoc] at hsees
  obtain ⟨_, hfollows'⟩ := hfront.follows ahead
  obtain ⟨c₁, allowed₁, cols₁, ts₁, hsteps, hsees, hcloses⟩ :=
    h _ _ _ _ _ _ _ _ _ _ _ hsees hfollows' hcloses hopens
  obtain ⟨outer, rfl⟩ : ∃ outer, cols'' = i :: outer := by
    cases hopens <;> exact ⟨_, rfl⟩
  obtain ⟨c₂, allowed₂, cols₂, ts₂, hsteps', hsees, hcloses⟩ :=
    h' _ _ _ _ _ _ _ _ _ _ _ hsees hfollows hcloses .next
  refine ⟨c₂, allowed₂, cols₂, ts₂, hsteps.trans hsteps', hsees, ?_⟩
  simpa using hcloses

/-- A key with a scalar on its line. -/
theorem passes_scalar (hs : s.Sound) (hkey : IsKey key)
    (hfront : ∀ ahead, TokenFront (value ++ ahead))
    (hfetches : ∀ c ahead j more, Follows i ahead j more → c.column = i + key.length + 2 →
      c.rest = value ++ ahead → FetchesScalar c i plain text ahead) :
    Passes s i (List.replicate i ' ' ++ (key ++ ':' :: ' ' :: value))
      [.key, .scalar true (String.ofList key), .value, .scalar plain (String.ofList text)] := by
  intro c cols allowed ts cols' ts' cols'' opening ahead j more hsees hfollows hcloses hopens
  have hsees : Sees (List.replicate i ' ' ++ (key ++ ':' :: ' ' :: (value ++ ahead))) allowed c :=
    by simpa using hsees
  obtain ⟨c', hcolumn, hrest, hkeySteps⟩ := advances_key hs hkey rfl hsees hcloses hopens
  have hscalar := hfetches (c'.skip 1) ahead j more hfollows (by simp [hcolumn]) (by simp [hrest])
  obtain ⟨c₂, allowed₂, hvalueStep, hsees⟩ := advances_value hs (by omega) hrest (hfront ahead)
    hscalar hopens.head _
  refine ⟨c₂, allowed₂, _, _, hkeySteps.tail hvalueStep, hsees, ?_⟩
  refine .refl fun e he => ?_
  obtain rfl : i = e := by simpa [hopens.head] using he
  exact Nat.le_refl i

/-- A key with lines behind it that are indented further. -/
theorem passes_group (hs : s.Sound) (hkey : IsKey key) (h : Passes s (i + 2) lines out)
    (hfront : Begins (i + 2) lines) :
    Passes s i (List.replicate i ' ' ++ (key ++ ':' :: '\n' :: lines))
      ([.key, .scalar true (String.ofList key), .value, .blockMapping] ++ out ++ [.blockEnd]) := by
  intro c cols allowed ts cols' ts' cols'' opening ahead j more hsees hfollows hcloses hopens
  have hsees : Sees (List.replicate i ' ' ++ (key ++ ':' :: '\n' :: (lines ++ ahead))) allowed c :=
    by simpa using hsees
  obtain ⟨c', hcolumn, hrest, hkeySteps⟩ := advances_key hs hkey rfl hsees hcloses hopens
  obtain ⟨_, hlines⟩ := hfront.follows ahead
  have hsees' : Sees (lines ++ ahead) false c' := by
    rw [hlines.text] at hrest ⊢
    exact .newLine hlines.front hrest false
  have hhead (e : Nat) (he : e ∈ cols''.head?) : e = i := by simpa [hopens.head] using he.symm
  have hfollows' : Follows (i + 2) ahead j more :=
    ⟨hfollows.text, hfollows.front, Nat.le_add_right_of_le hfollows.left⟩
  have hinward (e : Nat) (he : e ∈ cols''.head?) : e < i + 2 := by
    rw [hhead e he]
    omega
  obtain ⟨c₂, allowed₂, cols₂, ts₂, hsteps, hsees, hcloses⟩ :=
    h _ _ _ _ _ _ _ _ _ _ _ hsees' hfollows'
      (.refl fun e he => Nat.le_of_lt (hinward e he)) (.first hinward)
  refine ⟨c₂, allowed₂, cols₂, ts₂, hkeySteps.trans hsteps, hsees, ?_⟩
  have hclosed := hcloses.outward (i := i) (by omega) fun e he => Nat.le_of_eq (hhead e he)
  simpa using hclosed

/-! A field in the form that the laws above speak about. -/

theorem writeFields_text (i : Nat) (key value : String) :
    writeFields i [.text key value] = List.replicate i ' ' ++ (key.toList ++ ':' :: ' ' ::
      writeValue (i + 2) (i + key.length + 2) value) := by
  simp [writeFields]

theorem writeFields_word (i : Nat) (key value : String) :
    writeFields i [.word key value] = List.replicate i ' ' ++ (key.toList ++ ':' :: ' ' ::
      (value.toList ++ ['\n'])) := by
  simp [writeFields]

theorem writeFields_group (i : Nat) (key : String) (h : fields ≠ []) :
    writeFields i [.group key fields] = List.replicate i ' ' ++ (key.toList ++ ':' :: '\n' ::
      writeFields (i + 2) fields) := by
  have hempty : fields.isEmpty = false := by simpa using h
  simp [writeFields, hempty]

theorem writeFields_cons (i : Nat) (f : Field) (fs : List Field) :
    writeFields i (f :: fs) = writeFields i [f] ++ writeFields i fs := by
  cases f <;> simp [writeFields]

theorem writeFields_key (h : f.Proper) (i : Nat) (fs : List Field) :
    ∃ key more, IsKey key ∧ writeFields i (f :: fs) = List.replicate i ' ' ++ (key ++ more) := by
  cases f with
  | text key value => exact ⟨key.toList, _, h, by simp only [writeFields, List.append_assoc]; rfl⟩
  | word key value => exact ⟨key.toList, _, h.1, by simp only [writeFields, List.append_assoc]; rfl⟩
  | group key fields =>
    exact ⟨key.toList, _, h.1, by simp only [writeFields, List.append_assoc]; rfl⟩

theorem begins_fields (h : f.Proper) (i : Nat) (fs : List Field) :
    Begins i (writeFields i (f :: fs)) := by
  obtain ⟨key, more, hkey, htext⟩ := writeFields_key h i fs
  refine ⟨key ++ more, htext, hkey.tokenFront more, ?_⟩
  obtain ⟨d, rest, rfl, -⟩ := hkey.front
  simp

theorem passes_text (hs : s.Sound) (hkey : IsKey key.toList) (value : String) (i : Nat) :
    Passes s i (writeFields i [.text key value]) (Field.text key value).tokens := by
  rw [writeFields_text, Field.tokens]
  have hpasses := passes_scalar hs hkey (tokenFront_text (i + 2) (i + key.length + 2) value)
    fun c ahead j more hfollows hcolumn hc =>
      fetches_text hfollows (show i < c.column by omega) hc
  rwa [String.ofList_toList, String.ofList_toList] at hpasses

theorem fetches_word (h : IsWord word) (hfollows : Follows i ahead j more) (hcolumn : i < c.column)
    (hc : c.rest = word ++ ['\n'] ++ ahead) : FetchesScalar c i true word ahead := by
  have hword : fold (fun c => [c]) none (i + 2) 0 false word = word := by
    have hfold := fold_word (fun d hd => not_isGap_of_isWordChar (h.1 d hd)) (i + 2) 0 []
    rwa [List.append_nil, fold, List.append_nil] at hfold
  have hc' : c.rest = fold (fun c => [c]) none (i + 2) 0 false word ++ '\n' :: ahead := by
    rw [hword, hc]
    simp
  exact fetches_plain (.of_word h.1) h.2 hfollows hcolumn hc'

theorem passes_word (hs : s.Sound) (hkey : IsKey key.toList) (hword : IsWord value.toList)
    (i : Nat) :
    Passes s i (writeFields i [.word key value]) (Field.word key value).tokens := by
  rw [writeFields_word, Field.tokens]
  have hfront (ahead : List Char) : TokenFront (value.toList ++ ['\n'] ++ ahead) := by
    obtain ⟨d, rest, htext, hd, hmark⟩ := hword.2
    rw [htext]
    exact tokenFront_cons ⟨hd, ne_hash_of_front hmark⟩
  have hpasses := passes_scalar hs hkey hfront fun c ahead j more hfollows hcolumn hc =>
    fetches_word hword hfollows (show i < c.column by omega) hc
  rwa [String.ofList_toList, String.ofList_toList] at hpasses

/-! One case for each kind of field; the lines of a group are those of its fields. -/

mutual

theorem passes_field (hs : s.Sound) :
    (f : Field) → f.Proper → (i : Nat) → Passes s i (writeFields i [f]) f.tokens
  | .text _ value, h, i => passes_text hs h value i
  | .word _ _, h, i => passes_word hs h.1 h.2 i
  | .group key fields, h, i => by
    obtain ⟨hkey, hne, hfields⟩ := h
    have hbegins : Begins (i + 2) (writeFields (i + 2) fields) := by
      obtain ⟨f, fs, rfl⟩ := List.exists_cons_of_ne_nil hne
      exact begins_fields hfields.1 _ fs
    have hpasses := passes_group hs hkey (passes_fields hs fields hfields hne (i + 2)) hbegins
    rwa [String.ofList_toList, ← writeFields_group i key hne] at hpasses

theorem passes_fields (hs : s.Sound) :
    (fs : List Field) → ProperFields fs → fs ≠ [] → (i : Nat) →
      Passes s i (writeFields i fs) (fieldTokens fs)
  | [f], h, _, i => by
    rw [fieldTokens, fieldTokens, List.append_nil]
    exact passes_field hs f h.1 i
  | f :: f' :: fs, h, _, i => by
    rw [writeFields_cons, fieldTokens]
    exact (passes_field hs f h.1 i).append (passes_fields hs (f' :: fs) h.2 (by simp) i)
      (begins_fields h.2.1 i fs)

end

/-- At the end of the text the outermost block ends too. -/
theorem run_end (hs : s.Sound) (hsees : Sees [] allowed c) (hcloses : Closes 0 cols ts [0] ts')
    (n : Nat) :
    run s (n + 1) (between c cols allowed ts) = ts'.reverse ++ [.blockEnd, .streamEnd] := by
  obtain ⟨j, more, c', htext, hfront, htoken, hcolumn, hrest⟩ := hsees
  obtain ⟨hj, rfl⟩ := List.append_eq_nil_iff.mp htext.symm
  obtain rfl : j = 0 := by simpa using hj
  rw [← hcolumn] at hcloses
  rw [run, dropStale?_between]
  simp only [step?_between hs htoken hcloses]
  simp [fetch?, finish?, hrest, between, closeBlocks, inFlow, dropCandidate?, forget?, emit,
    hcolumn]

end Lexer

/-- The tokens of a written document. -/
theorem tokens_writeFields {s : Source} (hs : s.Sound) (h : ProperFields fs) (hne : fs ≠ [])
    (htext : s.text = writeFields 0 fs) :
    s.tokens = .blockMapping :: fieldTokens fs ++ [.blockEnd, .streamEnd] := by
  have hsees : Lexer.Sees (writeFields 0 fs ++ []) true (.start s.text) := by
    obtain ⟨f, fs, rfl⟩ := List.exists_cons_of_ne_nil hne
    obtain ⟨rest, hbegins, hfront, -⟩ := Lexer.begins_fields h.1 0 fs
    rw [List.replicate_zero, List.nil_append] at hbegins
    rw [List.append_nil, htext, hbegins]
    exact Lexer.Sees.here (c := .start rest) hfront
  obtain ⟨c, allowed, cols, ts, hsteps, hend, hcloses⟩ :=
    Lexer.passes_fields hs fs h hne 0 (.start s.text) [] true [] [] [] _ _ [] 0 [] hsees
      ⟨rfl, by simp [TokenFront], Nat.le_refl 0⟩ (.refl (by simp)) (.first (by simp))
  obtain ⟨m, hm, hrun⟩ := Lexer.run_advances hsteps (Nat.lt_succ_self s.text.length)
  obtain ⟨m, rfl⟩ := Nat.exists_eq_succ_of_ne_zero (Nat.ne_of_gt (Nat.zero_lt_of_lt hm))
  rw [Source.tokens]
  refine hrun.trans ?_
  rw [Lexer.run_end hs hend hcloses]
  simp

end SplatLang.Yaml
