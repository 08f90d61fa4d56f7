/-!
# Sets of code points

A character class is a list of inclusive ranges in increasing order, so looking a code point up
stops at the first range that starts beyond it.
-/

namespace SplatLang.Text

/-- Inclusive ranges of code points in increasing order. -/
abbrev CodePoints := List (Nat × Nat)

def CodePoints.has : CodePoints → Nat → Bool
  | [], _ => false
  | (lo, hi) :: rest, n => if n < lo then false else n ≤ hi || CodePoints.has rest n

end SplatLang.Text
