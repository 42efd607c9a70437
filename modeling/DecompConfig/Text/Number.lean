namespace DecompConfig.Text

/-- The value of a digit; letters of either case count from ten. -/
def letterValue? (c : Char) : Option Nat :=
  if '0' ≤ c ∧ c ≤ '9' then some (c.toNat - '0'.toNat)
  else if 'a' ≤ c ∧ c ≤ 'z' then some (c.toNat - 'a'.toNat + 10)
  else if 'A' ≤ c ∧ c ≤ 'Z' then some (c.toNat - 'A'.toNat + 10)
  else none

/-- The value of a digit of the base `base`. -/
def digitValue? (base : Nat) (c : Char) : Option Nat := (letterValue? c).filter (· < base)

/-- Continues the number `acc` by the digits of a text. -/
def continueNat? (base : Nat) : Nat → List Char → Option Nat
  | acc, [] => some acc
  | acc, c :: cs => do continueNat? base (acc * base + (← digitValue? base c)) cs

/-- The number written by one or more digits and nothing else. -/
def digits? (base : Nat) : List Char → Option Nat
  | [] => none
  | cs => continueNat? base 0 cs

/-- A natural number below `bound`, with an optional plus sign. -/
def nat? (base bound : Nat) (s : List Char) : Option Nat := do
  let n ← digits? base (match s with
    | '+' :: cs => cs
    | cs => cs)
  if n < bound then some n else none

/-- A decimal integer of `[-bound, bound)` with an optional sign. -/
def int? (bound : Nat) : List Char → Option Int
  | '-' :: cs => do
    let n ← digits? 10 cs
    if n ≤ bound then some (-n) else none
  | cs => (nat? 10 bound cs).map Int.ofNat

/-- The decimal digits of an integer, after a minus sign if it is negative. -/
def decimal : Int → List Char
  | .ofNat n => Nat.toDigits 10 n
  | .negSucc n => '-' :: Nat.toDigits 10 (n + 1)

/-- The text of a number in lower-case hexadecimal digits after `0x`. -/
def hexadecimal (n : Nat) : List Char := '0' :: 'x' :: Nat.toDigits 16 n

end DecompConfig.Text
