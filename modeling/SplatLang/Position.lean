/-!
# Places in a source text

Lines and columns count from 1, and a column counts characters. They are integers because a
position can also be made up by hand, and such a position is reported as it was given.
-/

namespace SplatLang

/-- A place in a source text. An empty file name means that the source has no name. -/
structure Position where
  line : Int
  column : Int
  file : String
  deriving DecidableEq, Repr, Inhabited

def Position.text (p : Position) : String :=
  (if p.file = "" then "<unknown>" else p.file) ++ ":" ++ toString p.line ++ ":" ++ toString p.column

end SplatLang
