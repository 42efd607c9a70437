import DecompConfig.Json.Basic
import DecompConfig.Text.Number

namespace DecompConfig.Json

/-- A JSON text without its blanks is a sequence of lexemes. -/
inductive Lexeme where
  | openArray
  | closeArray
  | openObject
  | closeObject
  | comma
  | colon
  /-- A string, or nothing if it holds half of a surrogate pair. -/
  | string (value : Option String)
  /-- A literal or a number. -/
  | scalar (value : Json)

/-- The blanks that may stand between lexemes. -/
def isSpace (c : Char) : Bool := c == ' ' || c == '\t' || c == '\n' || c == '\r'

/-- The code unit of the four digits of an escape. -/
def codeUnit? (a b c d : Char) : Option Nat := Text.continueNat? 16 0 [a, b, c, d]

/-- The character of an escape with one letter. -/
def escaped? : Char → Option Char
  | '"' => some '"'
  | '\\' => some '\\'
  | '/' => some '/'
  | 'b' => some '\x08'
  | 'f' => some '\x0c'
  | 'n' => some '\n'
  | 'r' => some '\r'
  | 't' => some '\t'
  | _ => none

/-- The code points and escaped code units of a string up to its closing quote, and what follows it. -/
def stringUnits? : List Char → Option (List Nat × List Char)
  | [] => none
  | '"' :: rest => some ([], rest)
  | '\\' :: 'u' :: a :: b :: c :: d :: rest => do
    let unit ← codeUnit? a b c d
    let (units, rest) ← stringUnits? rest
    return (unit :: units, rest)
  | '\\' :: c :: rest => do
    let c ← escaped? c
    let (units, rest) ← stringUnits? rest
    return (c.toNat :: units, rest)
  | c :: rest =>
    if c < ' ' then none
    else do
      let (units, rest) ← stringUnits? rest
      return (c.toNat :: units, rest)

def isHighSurrogate (unit : Nat) : Bool := 0xd800 ≤ unit && unit < 0xdc00

def isLowSurrogate (unit : Nat) : Bool := 0xdc00 ≤ unit && unit < 0xe000

/-- The characters of a sequence of code points and code units, where a surrogate pair is one
character and half of one is none. -/
def decodeUnits? : List Nat → Option (List Char)
  | [] => some []
  | [unit] => if isHighSurrogate unit || isLowSurrogate unit then none else some [.ofNat unit]
  | high :: low :: rest =>
    if isHighSurrogate high then
      if isLowSurrogate low then do
        return .ofNat (0x10000 + (high - 0xd800) * 0x400 + (low - 0xdc00)) :: (← decodeUnits? rest)
      else none
    else if isLowSurrogate high then none
    else do return .ofNat high :: (← decodeUnits? (low :: rest))

/-- The digits at the front of a text, of which there must be one, and what follows them. -/
def digits? (s : List Char) : Option (List Char × List Char) :=
  if (s.takeWhile Char.isDigit).isEmpty then none
  else some (s.takeWhile Char.isDigit, s.dropWhile Char.isDigit)

/-- The digits before the point. A zero is followed by no other digit. -/
def wholeDigits? (s : List Char) : Option (List Char × List Char) := do
  let (digits, rest) ← digits? s
  if digits.head? = some '0' ∧ digits ≠ ['0'] then none else some (digits, rest)

/-- The digits after the point, if there is a point. -/
def fractionDigits? : List Char → Option (List Char × List Char)
  | '.' :: rest => digits? rest
  | rest => some ([], rest)

/-- A minus sign, if there is one. -/
def minus : List Char → Bool × List Char
  | '-' :: rest => (true, rest)
  | rest => (false, rest)

/-- A sign of either kind, if there is one. -/
def sign : List Char → Bool × List Char
  | '+' :: rest => (false, rest)
  | rest => minus rest

def signed (negative : Bool) (n : Nat) : Int := if negative then -n else n

def natOfDigits (digits : List Char) : Nat := Nat.ofDigitChars 10 digits 0

/-- The exponent, if there is one. -/
def exponent? : List Char → Option (Option Int × List Char)
  | 'e' :: rest | 'E' :: rest =>
    (digits? (sign rest).2).map fun (digits, tail) =>
      (some (signed (sign rest).1 (natOfDigits digits)), tail)
  | rest => some (none, rest)

/-- A number that is written by its sign, digits and exponent. -/
def numberOf (negative : Bool) (whole fraction : List Char) : Option Int → Json
  | none =>
    if fraction.isEmpty then
      if negative ∧ whole = ['0'] then negativeZero else integer (signed negative (natOfDigits whole))
    else decimal (signed negative (natOfDigits (whole ++ fraction))) (-fraction.length)
  | some e => decimal (signed negative (natOfDigits (whole ++ fraction))) (e - fraction.length)

def number? (s : List Char) : Option (Json × List Char) := do
  let (whole, rest) ← wholeDigits? (minus s).2
  let (fraction, rest) ← fractionDigits? rest
  let (exponent, rest) ← exponent? rest
  return (numberOf (minus s).1 whole fraction exponent, rest)

namespace Lexeme

/-- The first lexeme of a text that begins with none of the blanks. -/
def first? : List Char → Option (Lexeme × List Char)
  | '[' :: rest => some (openArray, rest)
  | ']' :: rest => some (closeArray, rest)
  | '{' :: rest => some (openObject, rest)
  | '}' :: rest => some (closeObject, rest)
  | ',' :: rest => some (comma, rest)
  | ':' :: rest => some (colon, rest)
  | 'n' :: 'u' :: 'l' :: 'l' :: rest => some (scalar null, rest)
  | 't' :: 'r' :: 'u' :: 'e' :: rest => some (scalar (bool true), rest)
  | 'f' :: 'a' :: 'l' :: 's' :: 'e' :: rest => some (scalar (bool false), rest)
  | '"' :: rest => do
    let (units, rest) ← stringUnits? rest
    return (string ((decodeUnits? units).map String.ofList), rest)
  | s => do
    let (j, rest) ← number? s
    return (scalar j, rest)

end Lexeme

theorem stringUnits?_length {s rest : List Char} {units : List Nat}
    (h : stringUnits? s = some (units, rest)) : rest.length < s.length := by
  fun_induction stringUnits? s generalizing units rest with
  | case1 => simp at h
  | case2 => simp_all
  | case3 a b c d tail ih =>
    simp only [Option.bind_eq_bind, Option.bind_eq_some_iff] at h
    obtain ⟨_, _, ⟨_, _⟩, h, h'⟩ := h
    have := ih h
    simp only [pure, Option.some.injEq, Prod.mk.injEq] at h'
    simp only [List.length_cons, ← h'.2]
    omega
  | case4 c tail _ ih =>
    simp only [Option.bind_eq_bind, Option.bind_eq_some_iff] at h
    obtain ⟨_, _, ⟨_, _⟩, h, h'⟩ := h
    have := ih h
    simp only [pure, Option.some.injEq, Prod.mk.injEq] at h'
    simp only [List.length_cons, ← h'.2]
    omega
  | case5 => simp at h
  | case6 c tail _ _ _ _ ih =>
    simp only [Option.bind_eq_bind, Option.bind_eq_some_iff] at h
    obtain ⟨⟨_, _⟩, h, h'⟩ := h
    have := ih h
    simp only [pure, Option.some.injEq, Prod.mk.injEq] at h'
    simp only [List.length_cons, ← h'.2]
    omega

theorem digits?_length {s rest digits : List Char} (h : digits? s = some (digits, rest)) :
    rest.length < s.length := by
  unfold digits? at h
  split at h
  · contradiction
  next hne =>
    simp only [Option.some.injEq, Prod.mk.injEq] at h
    have hpos : 0 < (s.takeWhile Char.isDigit).length := by
      simpa [List.length_pos_iff, List.isEmpty_iff] using hne
    have := congrArg List.length (List.takeWhile_append_dropWhile (p := Char.isDigit) (l := s))
    rw [List.length_append] at this
    rw [← h.2]
    omega

theorem minus_length (s : List Char) : (minus s).2.length ≤ s.length := by
  unfold minus
  split <;> simp

theorem fractionDigits?_length {s rest digits : List Char}
    (h : fractionDigits? s = some (digits, rest)) : rest.length ≤ s.length := by
  unfold fractionDigits? at h
  split at h
  · have := digits?_length h
    simp only [List.length_cons]
    omega
  · simp_all

theorem sign_length (s : List Char) : (sign s).2.length ≤ s.length := by
  unfold sign
  split
  · simp
  · exact minus_length _

theorem exponent?_length {s rest : List Char} {e : Option Int}
    (h : exponent? s = some (e, rest)) : rest.length ≤ s.length := by
  unfold exponent? at h
  split at h
  case h_3 => simp_all
  all_goals
    next tail =>
      obtain ⟨⟨digits, _⟩, hdigits, h⟩ := Option.map_eq_some_iff.mp h
      simp only [Prod.mk.injEq] at h
      have := digits?_length hdigits
      have := sign_length tail
      rw [← h.2, List.length_cons]
      omega

theorem wholeDigits?_length {s rest digits : List Char} (h : wholeDigits? s = some (digits, rest)) :
    rest.length < s.length := by
  obtain ⟨⟨digits, tail⟩, hdigits, h⟩ := Option.bind_eq_some_iff.mp h
  have := digits?_length hdigits
  dsimp only at h
  split at h
  · contradiction
  · simp only [Option.some.injEq, Prod.mk.injEq] at h
    rw [← h.2]
    exact this

theorem number?_length {s rest : List Char} {j : Json} (h : number? s = some (j, rest)) :
    rest.length < s.length := by
  obtain ⟨⟨whole, afterWhole⟩, hwhole, h⟩ := Option.bind_eq_some_iff.mp h
  obtain ⟨⟨fraction, afterFraction⟩, hfraction, h⟩ := Option.bind_eq_some_iff.mp h
  obtain ⟨⟨e, afterExponent⟩, hexponent, h⟩ := Option.bind_eq_some_iff.mp h
  simp only [pure, Option.some.injEq, Prod.mk.injEq] at h
  have := minus_length s
  have := wholeDigits?_length hwhole
  have := fractionDigits?_length hfraction
  have := exponent?_length hexponent
  dsimp only at *
  rw [← h.2]
  omega

theorem Lexeme.first?_length {s rest : List Char} {x : Lexeme} (h : Lexeme.first? s = some (x, rest)) :
    rest.length < s.length := by
  unfold Lexeme.first? at h
  split at h
  case h_10 tail =>
    obtain ⟨⟨units, tail⟩, hunits, h⟩ := Option.bind_eq_some_iff.mp h
    have := stringUnits?_length hunits
    simp only [pure, Option.some.injEq, Prod.mk.injEq] at h
    rw [← h.2, List.length_cons]
    omega
  case h_11 =>
    obtain ⟨⟨j, tail⟩, hnumber, h⟩ := Option.bind_eq_some_iff.mp h
    have := number?_length hnumber
    simp only [pure, Option.some.injEq, Prod.mk.injEq] at h
    rw [← h.2]
    exact this
  all_goals
    simp only [Option.some.injEq, Prod.mk.injEq] at h
    rw [← h.2]
    simp only [List.length_cons]
    omega

/-- The lexemes of a text, if it consists of lexemes and blanks. -/
def lexemes? (s : List Char) : Option (List Lexeme) :=
  match _h : s.dropWhile isSpace with
  | [] => some []
  | c :: rest =>
    match _h' : Lexeme.first? (c :: rest) with
    | none => none
    | some (x, rest) => (lexemes? rest).map (x :: ·)
termination_by s.length
decreasing_by
  have := Lexeme.first?_length _h'
  have := (List.dropWhile_sublist isSpace (l := s)).length_le
  rw [_h] at this
  omega

end DecompConfig.Json
