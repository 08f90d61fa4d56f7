/-!
# Ends of texts
-/

namespace SplatLang.Text

def hasSuffix (s suffix : String) : Bool := suffix.toList.isSuffixOf s.toList

def trimSuffix (s suffix : String) : String :=
  if hasSuffix s suffix then String.ofList (s.toList.take (s.length - suffix.length)) else s

def padRight (width : Nat) (s : String) : String :=
  s ++ String.ofList (List.replicate (width - s.length) ' ')

def splitAt (sep : Char) : List Char → List (List Char)
  | [] => [[]]
  | c :: rest =>
    if c = sep then [] :: splitAt sep rest
    else
      match splitAt sep rest with
      | [] => [[c]]
      | piece :: pieces => (c :: piece) :: pieces

end SplatLang.Text
