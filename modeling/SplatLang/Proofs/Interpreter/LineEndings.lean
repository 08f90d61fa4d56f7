import SplatLang.Interpreter
import SplatLang.Proofs.Lexer.LineByLine

/-!
# Line endings

A line may end in a line feed or in a carriage return and a line feed. The carriage return is taken
off before the line is lexed, so it is neither a blank behind the last token nor a character of a
string that is not finished there, and every mixture of endings reads alike. Of a text that has
carriage returns elsewhere nothing is said: there they are blanks, or faults.
-/

namespace SplatLang

namespace LineReader

open Lexer

/-- The text with a carriage return before some of its line feeds: before the one with the number
`i`, counted from 0, if `chosen i`. -/
def withReturns : (chosen : Nat → Bool) → Text.Bytes → Text.Bytes
  | _, [] => []
  | chosen, b :: rest =>
    if b = lineFeed then
      (if chosen 0 then [carriageReturn, lineFeed] else [lineFeed]) ++
        withReturns (fun i => chosen (i + 1)) rest
    else b :: withReturns chosen rest

theorem withReturns_none (text : Text.Bytes) : withReturns (fun _ => false) text = text := by
  induction text with
  | nil => rfl
  | cons b rest ih =>
    rw [withReturns, ih]
    split
    next hb => simp [hb]
    · rfl

theorem dropCarriageReturn_cons (h : b ≠ carriageReturn) (line : Text.Bytes) :
    dropCarriageReturn (b :: line) = b :: dropCarriageReturn line := by
  cases line with
  | nil => simp [dropCarriageReturn, h]
  | cons c line =>
    unfold dropCarriageReturn
    rw [List.getLast?_cons_cons]
    split <;> rfl

/-- Without the carriage returns at the ends of its lines the text is as it was. -/
theorem splitLines_withReturns (h : carriageReturn ∉ text) (chosen : Nat → Bool) :
    (splitLines (withReturns chosen text)).1.map dropCarriageReturn = (splitLines text).1 ∧
      (splitLines (withReturns chosen text)).2 = (splitLines text).2 := by
  induction text generalizing chosen with
  | nil => exact ⟨rfl, rfl⟩
  | cons b rest ih =>
    rw [List.mem_cons, not_or] at h
    by_cases hb : b = lineFeed
    · obtain ⟨hlines, htail⟩ := ih h.2 fun i => chosen (i + 1)
      subst hb
      have hfeed (text : Text.Bytes) : splitLines (lineFeed :: text) = (_, _) :=
        @splitLines_line [] text nofun
      have hreturn (text : Text.Bytes) : splitLines (carriageReturn :: lineFeed :: text) = (_, _) :=
        @splitLines_line [carriageReturn] text (by decide)
      rw [withReturns, if_pos rfl, hfeed, ← hlines, ← htail]
      cases chosen 0 with
      | false =>
        rw [if_neg Bool.false_ne_true, List.singleton_append, hfeed]
        exact ⟨rfl, rfl⟩
      | true =>
        rw [if_pos rfl, List.cons_append, List.singleton_append, hreturn]
        exact ⟨rfl, rfl⟩
    · obtain ⟨hlines, htail⟩ := ih h.2 chosen
      have hrest : splitLines rest = (_, _) := Prod.ext hlines.symm htail.symm
      simp only [withReturns, splitLines, if_neg hb, hrest]
      cases (splitLines (withReturns chosen rest)).1 with
      | nil => exact ⟨rfl, rfl⟩
      | cons line lines =>
        exact ⟨congrArg (· :: _) (dropCarriageReturn_cons (Ne.symm h.1) line), rfl⟩

theorem tokenize_withReturns (h : carriageReturn ∉ text) (chosen : Nat → Bool) (file : String)
    (failure : Option String) :
    tokenize file ⟨withReturns chosen text, failure⟩ = tokenize file ⟨text, failure⟩ := by
  obtain ⟨hlines, htail⟩ := splitLines_withReturns h chosen
  have hnone := (splitLines_withReturns h fun _ => false).1
  rw [withReturns_none] at hnone
  have hdecode (ls : List Text.Bytes) :
      ls.map decodeLine = (ls.map dropCarriageReturn).map Text.decode :=
    List.map_map.symm
  have hlength : (splitLines (withReturns chosen text)).1.length = (splitLines text).1.length := by
    rw [← hlines, List.length_map]
  simp only [tokenize, tokens_fst, ofSource, hdecode, hlines, hnone, htail, hlength]

end LineReader

open LineReader

/-- Line endings do not matter. Putting a carriage return before any of the line feeds of a text
that has none changes neither its tokens nor its fault, in no detail, and so nothing of what
running it comes to: not its output, its trace or its failure. -/
theorem line_endings_irrelevant (text : Text.Bytes) (h : carriageReturn ∉ text)
    (chosen : Nat → Bool) (failure : Option String) :
    (∀ file, tokenize file ⟨withReturns chosen text, failure⟩ = tokenize file ⟨text, failure⟩) ∧
    ∀ sink opts, Interpreter.run ⟨withReturns chosen text, failure⟩ sink opts =
      Interpreter.run ⟨text, failure⟩ sink opts := by
  have htokens (file : String) := tokenize_withReturns h chosen file failure
  refine ⟨htokens, fun sink opts => ?_⟩
  simp only [Interpreter.run, Interpreter.check, Interpreter.parse, Interpreter.tokens, htokens]

/-- A string that is not finished in its line is found so at either ending. -/
theorem line_endings_irrelevant_unfinished :
    withReturns (· = 1) (Text.bytesOf "x\n\"ab\ny") = Text.bytesOf "x\n\"ab\r\ny" ∧
      tokenize "" ⟨Text.bytesOf "x\n\"ab\r\ny", none⟩ = .error ⟨.unfinishedString, ⟨2, 1, ""⟩⟩ := by
  have hreturns : withReturns (· = 1) (Text.bytesOf "x\n\"ab\ny") =
      Text.bytesOf "x\n\"ab\r\ny" := by
    decide +kernel
  refine ⟨hreturns, ?_⟩
  rw [← hreturns, (line_endings_irrelevant _ (by decide +kernel) _ none).1]
  cbv

end SplatLang
