import SplatLang.Text.Printable

/-!
# Quoted text

Text between double quotes, on one line. Printable characters stand for themselves, except the
quote and the backslash; every other one is written as an escape.
-/

namespace SplatLang.Text

def hex (width n : Nat) : String :=
  String.ofList ((List.range width).reverse.map fun k => Nat.digitChar ((n >>> (4 * k)) % 16))

def quotedChar (c : Char) : String :=
  if c = '"' then "\\\""
  else if c = '\\' then "\\\\"
  else if isPrintable c then c.toString
  else
    match c.toNat with
    | 0x07 => "\\a"
    | 0x08 => "\\b"
    | 0x09 => "\\t"
    | 0x0A => "\\n"
    | 0x0B => "\\v"
    | 0x0C => "\\f"
    | 0x0D => "\\r"
    | n =>
      if n < 0x20 ∨ n = 0x7F then "\\x" ++ hex 2 n
      else if n < 0x10000 then "\\u" ++ hex 4 n
      else "\\U" ++ hex 8 n

def quoted (s : String) : String := "\"" ++ String.join (s.toList.map quotedChar) ++ "\""

end SplatLang.Text
