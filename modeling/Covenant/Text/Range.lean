/-! Membership in a list of closed ranges of code points. The ranges are nonempty and apart, and
stand in increasing order. -/

namespace Covenant.Text

/-- The search ends at the first range that starts above `n`. -/
def inRanges (n : Nat) : List (Nat × Nat) → Bool
  | [] => false
  | (lo, hi) :: rest => lo ≤ n && (n ≤ hi || inRanges n rest)

end Covenant.Text
