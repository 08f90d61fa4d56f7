import Mathlib
import SplatLang.Proofs.Lexer.Cutting
import SplatLang.Proofs.Lexer.Reading
import SplatLang.Proofs.Parser.Relocate

/-!
# Respacing a source

What stands between the tokens of a source does not matter, as long as something does. A text
`Spells` the kinds and texts that its lines come to when they are cut. A blank in front changes
nothing, be it one that ends a line, and a token in front adds itself if what follows keeps apart.
So a source keeps its tokens under any other choice of blanks between them.
-/

namespace SplatLang

-- ---------------------------------------------------------------------------
-- Lines of a text
-- ---------------------------------------------------------------------------

theorem splitOn_append [BEq α] [LawfulBEq α] {x : α} {xs ys : List α} (h : x ∉ xs) :
    (xs ++ ys).splitOn x = (ys.splitOn x).modifyHead (xs ++ ·) := by
  induction xs with
  | nil => exact (congrFun List.modifyHead_id _).symm
  | cons y xs ih =>
    rw [List.mem_cons, not_or] at h
    rw [List.cons_append, List.splitOn_cons_eq_if_modifyHead, if_neg (by simpa using Ne.symm h.1),
      ih h.2, List.modifyHead_modifyHead]
    rfl

theorem splitOn_front [BEq α] [LawfulBEq α] {x : α} {xs : List α}
    (h : xs.splitOn x = front :: rest) : ∃ ys, xs = front ++ ys := by
  have hjoin : [x].intercalate (xs.splitOn x) = xs := List.intercalate_splitOn x
  rw [h] at hjoin
  cases rest with
  | nil => exact ⟨[], by simpa [List.intercalate] using hjoin.symm⟩
  | cons ys rest => exact ⟨_, hjoin.symm⟩

theorem encode_splitOn (cs : List Char) :
    (Text.encode cs).splitOn LineReader.lineFeed = (cs.splitOn '\n').map Text.encode := by
  induction cs with
  | nil => rfl
  | cons c cs ih =>
    show (String.utf8EncodeChar c ++ Text.encode cs).splitOn _ = _
    rw [List.splitOn_cons_eq_if_modifyHead]
    by_cases hc : c = '\n'
    · subst hc
      show (LineReader.lineFeed :: Text.encode cs).splitOn _ = _
      rw [List.splitOn_cons_eq_if_modifyHead, ih]
      rfl
    · have hfeed : LineReader.lineFeed ∉ String.utf8EncodeChar c := fun hb =>
        hc (Char.toNat_inj.mp (Text.toNat_of_mem_encodeChar hb (by decide)))
      rw [splitOn_append hfeed, ih, if_neg (by simpa using hc)]
      cases cs.splitOn '\n' <;> rfl

namespace Lexer

def spelling (fs : List Fragment) : List (TokenKind × String) :=
  fs.filterMap fun f => f.kind.map (·, String.ofList f.text)

/-- The lines of the text can be cut, and the fragments that are not blank are these. -/
def Spells (cs : List Char) (ws : List (TokenKind × String)) : Prop :=
  ∃ cuts, List.Forall₂ Cutting (cs.splitOn '\n') cuts ∧ cuts.flatMap spelling = ws

theorem spells_nil : Spells [] [] := ⟨[[]], .cons .nil .nil, rfl⟩

theorem Spells.append (h : Spells cs ws) (hlex : Lexical k text) (hfeed : '\n' ∉ text)
    (hbounded : Bounded text cs) : Spells (text ++ cs) (spelling [⟨k, text⟩] ++ ws) := by
  obtain ⟨cuts, hcuts, rfl⟩ := h
  obtain ⟨line, lines, hlines⟩ := List.exists_cons_of_ne_nil (List.splitOn_ne_nil '\n' cs)
  obtain ⟨behind, rfl⟩ := splitOn_front hlines
  rw [hlines] at hcuts
  cases hcuts with
  | @cons _ fs _ cuts hline hrest =>
    refine ⟨(⟨k, text⟩ :: fs) :: cuts, ?_, ?_⟩
    · rw [splitOn_append hfeed, hlines]
      exact .cons (.cons hlex hbounded.front hline) hrest
    · cases k <;> simp [spelling]

theorem apart_of_blank (h : Text.isBlank c = true) : Apart (c :: cs) := by
  refine apart_cons ?_ ?_
  · rw [Bool.eq_false_iff]
    intro hname
    simp [not_blank_of_name hname] at h
  · rintro rfl
    exact absurd h (by decide)

theorem Spells.blank (h : Spells cs ws) (hblank : Text.isBlank c = true) : Spells (c :: cs) ws := by
  by_cases hc : c = '\n'
  · subst hc
    obtain ⟨cuts, hcuts, rfl⟩ := h
    refine ⟨[] :: cuts, ?_, rfl⟩
    rw [List.splitOn_cons_eq_if_modifyHead, if_pos (by simp)]
    exact .cons .nil hcuts
  · have hcut : cut c cs = .ok ⟨none, [c], cs⟩ := by rw [cut, if_pos hblank]
    exact h.append (.blank hblank) (by simpa using Ne.symm hc) (cut_bounded hcut)

theorem Spells.blanks (h : Spells cs ws) (hgap : ∀ c ∈ gap, Text.isBlank c = true) :
    Spells (gap ++ cs) ws := by
  induction gap with
  | nil => exact h
  | cons c gap ih =>
    rw [List.forall_mem_cons] at hgap
    exact (ih hgap.2).blank hgap.1

theorem Spells.token {t : Token} (h : Spells cs ws) (ht : t.Genuine) (hapart : Apart cs) :
    Spells (t.value.toList ++ cs) ((t.kind, t.value) :: ws) := by
  simpa [spelling] using h.append (lexical_of_shape ht.shape) ht.noFeed hapart.bounded

-- ---------------------------------------------------------------------------
-- Reading what is written
-- ---------------------------------------------------------------------------

theorem tokensOn_spelling :
    (tokensOn file line offset fs).map (fun t => (t.kind, t.value)) = spelling fs := by
  induction fs generalizing offset with
  | nil => rfl
  | cons f fs ih =>
    rw [tokensOn, List.map_append, ih]
    cases hk : f.kind <;> simp [spelling, hk]

end Lexer

namespace LineReader

open Lexer

variable {file : String}

theorem tokensOfLines_spelling :
    (tokensOfLines file line cuts).map (fun t => (t.kind, t.value)) = cuts.flatMap spelling := by
  induction cuts generalizing line with
  | nil => rfl
  | cons fs cuts ih => rw [tokensOfLines, List.map_append, ih, tokensOn_spelling, List.flatMap_cons]

/-- The carriage return that a line may lose is a blank. -/
theorem decodeLine_spelling (h : Cutting cs fs) :
    ∃ gs, Cutting (decodeLine (Text.encode cs)) gs ∧ spelling gs = spelling fs := by
  rcases decodeLine_encode cs with heq | heq
  · exact ⟨fs, heq.symm ▸ h, rfl⟩
  · rw [heq] at h
    obtain ⟨gs, hgs, rfl⟩ := h.dropReturn
    exact ⟨gs, hgs, by simp [spelling]⟩

theorem decodeLines_spelling (h : List.Forall₂ Cutting ls cuts) :
    ∃ cuts', List.Forall₂ Cutting (ls.map fun l => decodeLine (Text.encode l)) cuts' ∧
      cuts'.flatMap spelling = cuts.flatMap spelling := by
  induction h with
  | nil => exact ⟨[], .nil, rfl⟩
  | cons hline _ ih =>
    obtain ⟨gs, hgs, hspell⟩ := decodeLine_spelling hline
    obtain ⟨cuts', hcuts', hspells⟩ := ih
    refine ⟨gs :: cuts', .cons hgs hcuts', ?_⟩
    rw [List.flatMap_cons, List.flatMap_cons, hspell, hspells]

theorem tokenize_spells (h : Spells cs ws) (file : String) :
    ∃ us, tokenize file ⟨Text.encode cs, none⟩ = .ok us ∧
      us.map (fun t => (t.kind, t.value)) = ws := by
  obtain ⟨cuts, hcuts, rfl⟩ := h
  obtain ⟨cuts', hcuts', hspell⟩ := decodeLines_spelling hcuts
  refine ⟨tokensOfLines file 1 cuts', ?_, ?_⟩
  · rw [tokenize_eq, lexFrom_iff, sourceLines, encode_splitOn, List.map_map]
    exact ⟨cuts', hcuts', rfl⟩
  · rw [tokensOfLines_spelling, hspell]

end LineReader

-- ---------------------------------------------------------------------------
-- Other blanks between the same tokens
-- ---------------------------------------------------------------------------

open Lexer

structure Separates (gap : String) : Prop where
  nonempty : gap ≠ ""
  blank : ∀ c ∈ gap.toList, Text.isBlank c = true

/-- The texts of the tokens, with the gaps between each token and the next. -/
def respaced : (gap : Nat → String) → List Token → String
  | _, [] => ""
  | _, [t] => t.value
  | gap, t :: u :: ts => t.value ++ gap 0 ++ respaced (fun i => gap (i + 1)) (u :: ts)

theorem respaced_spells (hts : ∀ t ∈ ts, t.Genuine)
    (hgap : ∀ i, i + 1 < ts.length → Separates (gap i)) :
    Spells (respaced gap ts).toList (ts.map fun t => (t.kind, t.value)) := by
  induction gap, ts using respaced.induct with
  | case1 gap => exact spells_nil
  | case2 gap t =>
    have ht := spells_nil.token (hts t (by simp)) apart_nil
    rwa [List.append_nil] at ht
  | case3 gap t u ts ih =>
    rw [List.forall_mem_cons] at hts
    have hrest := ih hts.2 fun i hi => hgap (i + 1) (by simpa using hi)
    have hfirst := hgap 0 (by simp)
    rw [respaced, String.toList_append, String.toList_append, List.append_assoc]
    refine (hrest.blanks hfirst.blank).token hts.1 ?_
    -- The gap is not empty, and a blank goes on with no token.
    cases hg : (gap 0).toList with
    | nil => exact absurd (String.toList_eq_nil_iff.mp hg) hfirst.nonempty
    | cons c cs => exact apart_of_blank (hfirst.blank c (by simp [hg]))

theorem separates_space : Separates " " := by
  refine ⟨by simp, ?_⟩
  have hblank : Text.isBlank ' ' = true := by decide
  simpa using hblank

theorem respaced_space (ts : List Token) :
    respaced (fun _ => " ") ts = " ".intercalate (ts.map Token.value) := by
  match ts with
  | [] => rfl
  | [t] => rfl
  | t :: u :: ts =>
    rw [respaced, respaced_space (u :: ts), List.map_cons, List.map_cons, List.map_cons,
      String.intercalate_cons_cons]

/-- Blanks of any sort may stand between the tokens of a source, line breaks among them: what is
read are tokens of the same kinds and texts. -/
theorem tokenize_respaced (h : tokenize file src = .ok ts) :
    (∀ file' gap, (∀ i, i + 1 < ts.length → Separates (gap i)) →
      ∃ us, tokenize file' ⟨Text.bytesOf (respaced gap ts), none⟩ = .ok us ∧ SameTokens us ts) ∧
    ∀ file', ∃ us,
      tokenize file' ⟨Text.bytesOf (" ".intercalate (ts.map Token.value)), none⟩ = .ok us ∧
        SameTokens us ts := by
  have hrespaced : ∀ file' gap, (∀ i, i + 1 < ts.length → Separates (gap i)) →
      ∃ us, tokenize file' ⟨Text.bytesOf (respaced gap ts), none⟩ = .ok us ∧ SameTokens us ts :=
    fun file' gap hgap =>
      LineReader.tokenize_spells (respaced_spells (tokenize_genuine h) hgap) file'
  refine ⟨hrespaced, fun file' => ?_⟩
  rw [← respaced_space]
  exact hrespaced file' _ fun _ _ => separates_space

def tight : Text.Bytes := Text.bytesOf ":==\"a b\"=1"

def tightTokens : List Token :=
  [⟨.operator, ":=", ⟨1, 1, ""⟩⟩, ⟨.operator, "=", ⟨1, 3, ""⟩⟩, ⟨.string, "\"a b\"", ⟨1, 4, ""⟩⟩,
   ⟨.operator, "=", ⟨1, 9, ""⟩⟩, ⟨.int, "1", ⟨1, 10, ""⟩⟩]

theorem tokenize_respaced_tight :
    tokenize "" ⟨tight, none⟩ = .ok tightTokens ∧
      ∃ us, tokenize "" ⟨Text.bytesOf (respaced (fun _ => "\r\n\t") tightTokens), none⟩ = .ok us ∧
        SameTokens us tightTokens := by
  have hok : tokenize "" ⟨tight, none⟩ = .ok tightTokens := by cbv
  have hgap : Separates "\r\n\t" := by
    refine ⟨by simp, ?_⟩
    have hblank : ['\r', '\n', '\t'].all Text.isBlank = true := by decide
    simpa using hblank
  exact ⟨hok, (tokenize_respaced hok).1 "" _ fun _ _ => hgap⟩

end SplatLang
