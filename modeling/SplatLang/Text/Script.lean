import SplatLang.Text.Utf8

/-!
# Texts of characters and of bytes

Most texts are characters. Where bytes that are no characters matter, the same definitions speak
about bytes: `spell` puts words into either kind of text.
-/

namespace SplatLang.Text

/-- Cuts a text at its line feeds; a text without one is a single line. -/
def linesOf [DecidableEq α] (feed : α) : List α → List (List α)
  | [] => [[]]
  | c :: rest =>
    if c = feed then [] :: linesOf feed rest
    else
      match linesOf feed rest with
      | [] => [[c]]
      | line :: lines => (c :: line) :: lines

/-- Texts that words can be spelled in and that can be cut into lines. -/
class Script (ρ : Type) extends Append ρ where
  spell : String → ρ
  split : ρ → List ρ

export Script (spell split)

instance : Script String where
  spell := id
  split text := (linesOf '\n' text.toList).map String.ofList

instance : Script Bytes where
  spell := bytesOf
  split := linesOf 0x0A

@[simp] theorem spell_string (s : String) : (spell s : String) = s := rfl

theorem split_string (s : String) : split s = (linesOf '\n' s.toList).map String.ofList := rfl

end SplatLang.Text
