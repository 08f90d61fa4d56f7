import SplatLang.Proofs.SumType.Declarations

/-!
# The code of categories

What the generated text declares is read off its tokens. The text is scanned line by line, since a
member of an interface and a declaration end with their line, and the lines are taken as interfaces
and methods in the one way that is possible. So the text tells the declarations it was made from.
-/

namespace SplatLang.SumType

-- ---------------------------------------------------------------------------
-- Code
-- ---------------------------------------------------------------------------

def word (s : String) : Lexeme := ⟨true, s⟩

def sign (s : String) : Lexeme := ⟨false, s⟩

def Member.line : Member → List Lexeme
  | embed name => [word name]
  | method name => [word name, sign "(", sign ")"]

def closing : List Lexeme := [sign "\x7d"]

def Item.lines : Item → List (List Lexeme)
  | interface name members =>
    [word "type", word name, word "interface", sign "\x7b"] ::
      (members.map Member.line ++ [closing])
  | method receiver name =>
    [[word "func", sign "(", sign "*", word receiver, sign ")", word name, sign "(", sign ")",
      sign "\x7b", sign "\x7d"]]

def isPlain (c : Char) : Bool := !isQuote c && c != '\n' && c != '\x00'

def lineTokens? (line : List Char) : Option (List Lexeme) :=
  if line.all isPlain then lexemes (line.length + 1) line else none

/-- The tokens of each line that has any. -/
def tokenLines (cs : List Char) : Option (List (List Lexeme)) :=
  ((cs.splitOn '\n').mapM lineTokens?).map (·.filter (· ≠ []))

/-- The text is code that declares these items, in this order and no others. -/
def IsCode (text : String) (items : List Item) : Prop :=
  tokenLines text.toList = some (items.flatMap Item.lines) ∧
    ∀ item ∈ items, ∀ n ∈ item.names, n ∉ keywords

-- ---------------------------------------------------------------------------
-- Code is unambiguous
-- ---------------------------------------------------------------------------

theorem Member.line_injective : Function.Injective Member.line := by
  intro m m' h
  cases m <;> cases m' <;> simp_all [line, word]

theorem Member.line_ne_closing (m : Member) : m.line ≠ closing := by
  cases m <;> simp [line, closing, word, sign]

theorem members_unique {members members' : List Member}
    (h : members.map Member.line ++ closing :: rest =
      members'.map Member.line ++ closing :: rest') :
    members = members' ∧ rest = rest' := by
  induction members generalizing members' with
  | nil =>
    cases members' with
    | nil => exact ⟨rfl, (List.cons.inj h).2⟩
    | cons m' members' => exact absurd (List.cons.inj h).1.symm m'.line_ne_closing
  | cons m members ih =>
    cases members' with
    | nil => exact absurd (List.cons.inj h).1 m.line_ne_closing
    | cons m' members' =>
      obtain ⟨hline, hmore⟩ := List.cons.inj h
      obtain ⟨rfl, hrest⟩ := ih hmore
      exact ⟨by rw [Member.line_injective hline], hrest⟩

theorem Item.lines_unique {item item' : Item} (h : item.lines ++ rest = item'.lines ++ rest') :
    item = item' ∧ rest = rest' := by
  cases item with
  | interface name members =>
    cases item' with
    | interface name' members' =>
      simp only [lines, List.cons_append, List.append_assoc, List.nil_append] at h
      obtain ⟨hhead, hmore⟩ := List.cons.inj h
      obtain ⟨rfl, hrest⟩ := members_unique hmore
      simp_all [word]
    | method => simp [lines, word] at h
  | method receiver name =>
    cases item' with
    | interface => simp [lines, word] at h
    | method => simp_all [lines, word]

theorem Item.lines_ne_nil (item : Item) : item.lines ≠ [] := by
  cases item <;> simp [lines]

theorem items_unique {items items' : List Item}
    (h : items.flatMap Item.lines = items'.flatMap Item.lines) : items = items' := by
  induction items generalizing items' with
  | nil =>
    cases items' with
    | nil => rfl
    | cons item' items' => simp [item'.lines_ne_nil] at h
  | cons item items ih =>
    cases items' with
    | nil => simp [item.lines_ne_nil] at h
    | cons item' items' =>
      rw [List.flatMap_cons, List.flatMap_cons] at h
      obtain ⟨rfl, hrest⟩ := Item.lines_unique h
      rw [ih hrest]

-- ---------------------------------------------------------------------------
-- Scanning
-- ---------------------------------------------------------------------------

structure Scans (line : List Char) (ts : List Lexeme) : Prop where
  plain : line.all isPlain = true
  tokens : line.length < n → lexemes n line = some ts

theorem Scans.nil : Scans [] [] where
  plain := rfl
  tokens {n} hn := by
    obtain ⟨n, rfl⟩ := Nat.exists_eq_add_one_of_ne_zero (Nat.ne_zero_of_lt hn)
    rfl

theorem Scans.blank (hc : c = ' ' ∨ c = '\t') (h : Scans cs ts) : Scans (c :: cs) ts where
  plain := by
    rw [List.all_cons, h.plain]
    obtain rfl | rfl := hc <;> rfl
  tokens {n} hn := by
    obtain ⟨n, rfl⟩ := Nat.exists_eq_add_one_of_ne_zero (Nat.ne_zero_of_lt hn)
    rw [lexemes, if_pos (by obtain rfl | rfl := hc <;> rfl)]
    exact h.tokens (Nat.lt_of_succ_lt_succ hn)

def isSign (c : Char) : Bool := !isBlankChar c && !startsName c && isPlain c && c != '/'

theorem Scans.sign (hc : isSign c = true) (h : Scans cs ts) :
    Scans (c :: cs) (sign c.toString :: ts) := by
  simp only [isSign, Bool.and_eq_true, Bool.not_eq_true', bne_iff_ne] at hc
  obtain ⟨⟨⟨hblank, hname⟩, hplain⟩, hslash⟩ := hc
  constructor
  case plain => rw [List.all_cons, hplain, h.plain, Bool.and_true]
  case tokens =>
    intro n hn
    obtain ⟨n, rfl⟩ := Nat.exists_eq_add_one_of_ne_zero (Nat.ne_zero_of_lt hn)
    simp only [isPlain, Bool.and_eq_true, Bool.not_eq_true'] at hplain
    simp [lexemes, hblank, hname, hslash, hplain.1.1, h.tokens (Nat.lt_of_succ_lt_succ hn),
      SumType.sign]

theorem isNameChar_of_startsName (h : startsName c = true) : Lexer.isNameChar c = true := by
  simp only [startsName, Bool.or_eq_true] at h
  simp only [Lexer.isNameChar, Bool.or_eq_true]
  exact .inl h

theorem isBlankChar_of_startsName (h : startsName c = true) : isBlankChar c = false := by
  by_contra hblank
  simp only [isBlankChar, Bool.not_eq_false, Bool.or_eq_true, decide_eq_true_eq] at hblank
  obtain ((rfl | rfl) | rfl) | rfl := hblank <;> cases h

theorem isPlain_of_isNameChar (h : Lexer.isNameChar c = true) : isPlain c = true := by
  by_contra hplain
  have hcases : c = '"' ∨ c = '\'' ∨ c = '\x60' ∨ c = '\n' ∨ c = '\x00' := by
    simp only [isPlain, isQuote, Bool.and_eq_true, Bool.not_eq_true', bne_iff_ne,
      Bool.or_eq_false_iff, decide_eq_false_iff_not] at hplain
    tauto
  obtain rfl | rfl | rfl | rfl | rfl := hcases <;> cases h

theorem isIdentifier_iff : isIdentifier s = true ↔
    ∃ c cs, s.toList = c :: cs ∧ startsName c = true ∧ cs.all Lexer.isNameChar = true := by
  unfold isIdentifier
  split
  next hs => simp [hs]
  next c cs hs => simp [hs]

/-- A run of elements ends where one comes that is not of its kind. -/
theorem run_split {p : α → Bool} {xs ys : List α} (hxs : ∀ x ∈ xs, p x = true)
    (hys : ys.head?.any p = false) :
    (xs ++ ys).takeWhile p = xs ∧ (xs ++ ys).dropWhile p = ys := by
  rw [List.takeWhile_append_of_pos hxs, List.dropWhile_append_of_pos hxs]
  cases ys with
  | nil => simp
  | cons y ys =>
    have hy : p y = false := hys
    simp [hy]

theorem Scans.word (hs : isIdentifier s = true) (hcs : cs.head?.any Lexer.isNameChar = false)
    (h : Scans cs ts) : Scans (s.toList ++ cs) (word s :: ts) := by
  obtain ⟨c, rest, hs, hc, hrest⟩ := isIdentifier_iff.mp hs
  rw [List.all_eq_true] at hrest
  constructor
  case plain =>
    have hword : rest.all isPlain = true :=
      List.all_eq_true.mpr fun d hd => isPlain_of_isNameChar (hrest d hd)
    rw [hs, List.all_append, List.all_cons, hword, h.plain,
      isPlain_of_isNameChar (isNameChar_of_startsName hc)]
    rfl
  case tokens =>
    intro n hn
    obtain ⟨n, rfl⟩ := Nat.exists_eq_add_one_of_ne_zero (Nat.ne_zero_of_lt hn)
    obtain ⟨htake, hdrop⟩ := run_split hrest hcs
    have hmore : lexemes n cs = some ts := h.tokens (by
      rw [hs, List.length_append, List.length_cons] at hn
      omega)
    rw [hs, List.cons_append, lexemes, isBlankChar_of_startsName hc, if_neg Bool.false_ne_true,
      if_pos hc, htake, hdrop, hmore, ← hs, String.ofList_toList]
    rfl

-- ---------------------------------------------------------------------------
-- Lines
-- ---------------------------------------------------------------------------

/-- Whole lines and their tokens, whatever text comes next. -/
def Reads (cs : List Char) (tss : List (List Lexeme)) : Prop :=
  ∀ rest rss, tokenLines rest = some rss → tokenLines (cs ++ rest) = some (tss ++ rss)

theorem tokenLines_nil : tokenLines [] = some [] := by decide

theorem Reads.tokenLines (h : Reads cs tss) : tokenLines cs = some tss := by
  simpa using h [] [] tokenLines_nil

theorem Reads.nil : Reads [] [] := fun _ _ h => h

theorem Reads.append (h : Reads cs tss) (h' : Reads cs' tss') :
    Reads (cs ++ cs') (tss ++ tss') := by
  intro rest rss hrest
  rw [List.append_assoc, List.append_assoc]
  exact h _ _ (h' _ _ hrest)

theorem Reads.flatMap {xs : List α} {f : α → List Char} {g : α → List (List Lexeme)}
    (h : ∀ x ∈ xs, Reads (f x) (g x)) : Reads (xs.flatMap f) (xs.flatMap g) := by
  induction xs with
  | nil => exact .nil
  | cons x xs ih =>
    rw [List.flatMap_cons, List.flatMap_cons]
    exact (h x List.mem_cons_self).append (ih fun y hy => h y (List.mem_cons_of_mem _ hy))

theorem Reads.map {xs : List α} {f : α → List Char} {g : α → List Lexeme}
    (h : ∀ x ∈ xs, Reads (f x) [g x]) : Reads (xs.flatMap f) (xs.map g) := by
  rw [List.map_eq_flatMap]
  exact .flatMap h

theorem tokenLines_line (h : Scans line ts) (rest : List Char) :
    tokenLines (line ++ '\n' :: rest) =
      (tokenLines rest).map fun rss => if ts = [] then rss else ts :: rss := by
  have hfeed : '\n' ∉ line := fun hmem => absurd (List.all_eq_true.mp h.plain _ hmem) (by decide)
  have htokens : lineTokens? line = some ts := by
    rw [lineTokens?, if_pos h.plain, h.tokens (Nat.lt_succ_self _)]
  rw [tokenLines, List.splitOn_append_cons_self_of_not_mem hfeed, List.mapM_cons, htokens,
    tokenLines]
  cases (rest.splitOn '\n').mapM lineTokens? with
  | none => rfl
  | some lines => by_cases hts : ts = [] <;> simp [hts]

theorem Reads.feed : Reads ['\n'] [] := by
  intro rest rss hrest
  rw [List.singleton_append, ← List.nil_append ('\n' :: rest), tokenLines_line .nil, hrest]
  rfl

theorem Scans.reads (h : Scans line (t :: ts)) : Reads (line ++ ['\n']) [t :: ts] := by
  intro rest rss hrest
  rw [List.append_assoc, List.singleton_append, tokenLines_line h, hrest]
  rfl

-- ---------------------------------------------------------------------------
-- The emitted text
-- ---------------------------------------------------------------------------

theorem IsCode.unique {items items' : List Item} (h : IsCode text items)
    (h' : IsCode text items') : items = items' :=
  items_unique (Option.some.inj (h.1.symm.trans h'.1))

-- ---------------------------------------------------------------------------
-- Names
-- ---------------------------------------------------------------------------

variable {d : SumType}

section

variable {tokens? : Text.Bytes → Option (List Lexeme)} {read : Reader} {emit : Emitter}

end

def expr : SumType := ⟨"Expr", ["Node", "Typed"], ["Lit", "Var"]⟩

def stmt : SumType := ⟨"Stmt", [], ["Print"]⟩

end SplatLang.SumType
