namespace DecompConfig.Text

/-- Membership of a code point in a table of closed ranges in increasing order. The search stops at
the first range that begins above the code point. -/
def inRanges (n : Nat) : List (Nat × Nat) → Bool
  | [] => false
  | (lo, hi) :: rest => if n < lo then false else n ≤ hi || inRanges n rest

end DecompConfig.Text
