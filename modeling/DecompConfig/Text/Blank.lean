import DecompConfig.Text.CharRange

namespace DecompConfig.Text

/-- The characters with the Unicode property White_Space. -/
def blankRanges : List (Nat × Nat) :=
  [(0x9, 0xd), (0x20, 0x20), (0x85, 0x85), (0xa0, 0xa0), (0x1680, 0x1680), (0x2000, 0x200a),
   (0x2028, 0x2029), (0x202f, 0x202f), (0x205f, 0x205f), (0x3000, 0x3000)]

/-- Blank characters separate words and are trimmed from the ends of texts. -/
def isBlank (c : Char) : Bool := inRanges c.toNat blankRanges

def trimStart (s : List Char) : List Char := s.dropWhile isBlank

def trimEnd (s : List Char) : List Char := (s.reverse.dropWhile isBlank).reverse

/-- The text without the blanks at its two ends. -/
def trim (s : List Char) : List Char := trimEnd (trimStart s)

/-- The stretches between the characters that satisfy `cut`, empty ones included. -/
def pieces (cut : Char → Bool) : List Char → List (List Char)
  | [] => [[]]
  | c :: cs => if cut c then [] :: pieces cut cs else (pieces cut cs).modifyHead (c :: ·)

theorem pieces_ne_nil (cut : Char → Bool) (s : List Char) : pieces cut s ≠ [] := by
  induction s with
  | nil => simp [pieces]
  | cons c cs ih =>
    rw [pieces]
    split
    · simp
    · cases h : pieces cut cs with
      | nil => exact absurd h ih
      | cons w ws => simp

/-- The maximal stretches without a blank. -/
def words (s : List Char) : List (List Char) := (pieces isBlank s).filter (!·.isEmpty)

theorem ne_nil_of_mem_words {s w : List Char} (h : w ∈ words s) : w ≠ [] := by
  simpa using (List.mem_filter.mp h).2

end DecompConfig.Text
