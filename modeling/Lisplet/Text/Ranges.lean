/-!
# Ranges of code points

A property of characters is given by a table of disjoint ranges in ascending order.  Looking a
code point up stops at the first range that begins above it, so the common characters, which
stand at the front of every table, are found in a few steps.
-/

namespace Lisplet.Text

/-- Whether `n` lies in one of the ascending, disjoint ranges. -/
def inRanges : List (Nat × Nat) → Nat → Bool
  | [], _ => false
  | (lo, hi) :: rest, n => decide (lo ≤ n) && (decide (n ≤ hi) || inRanges rest n)

end Lisplet.Text
