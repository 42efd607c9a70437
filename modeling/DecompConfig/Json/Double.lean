namespace DecompConfig.Json

/-- A natural number to 53 binary digits; of two that are equally near, the even one. -/
def nearestDouble (n : Nat) : Nat :=
  let unit := Nat.pow 2 (n.log2 - 52)
  let below := n / unit
  let twice := 2 * (n % unit)
  let rounded := if twice < unit ∨ twice = unit ∧ below % 2 = 0 then below else below + 1
  rounded * unit

/-- The first decimal digits of a number, as many as 64 bits hold, and how many digits follow them. -/
def leadingDigits (n : Nat) : Nat × Nat :=
  let dropped := (Nat.toDigits 10 n).length - 20
  let leading := n / Nat.pow 10 dropped
  if leading < UInt64.size then (leading, dropped) else (leading / 10, dropped + 1)

/-- The magnitudes from here on round to infinity. -/
def doubleBound : Nat := Nat.pow 2 1024 - Nat.pow 2 970

/-- The number `mantissa * 10 ^ exponent` is finite in double precision. Only its leading digits count;
they and the power of ten that scales them are rounded before they are multiplied. -/
def fitsDouble (mantissa exponent : Int) : Bool :=
  let (leading, dropped) := leadingDigits mantissa.natAbs
  let scale := exponent + dropped
  leading == 0 ||
    scale ≤ 308 && nearestDouble leading * nearestDouble (Nat.pow 10 scale.toNat) < doubleBound

end DecompConfig.Json
