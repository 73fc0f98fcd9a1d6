set_option autoImplicit false

/-!
Membership of a character in a list of closed code point ranges.
-/

namespace AutoloadIndex.Text

/-- The ranges are ascending, so the search may stop at the first one that ends at or after `c`. -/
def inRanges : List (Nat × Nat) → Char → Bool
  | [], _ => false
  | (low, high) :: more, c =>
    if high < c.toNat then inRanges more c else decide (low ≤ c.toNat)

end AutoloadIndex.Text
