import DecompConfig.Json.Lexeme
import DecompConfig.Json.Writing

namespace DecompConfig.Json

section Strings

theorem not_surrogate (c : Char) :
    isHighSurrogate c.toNat = false ∧ isLowSurrogate c.toNat = false := by
  have hvalid : c.toNat < 0xd800 ∨ 0xdfff < c.toNat ∧ c.toNat < 0x110000 := c.valid
  simp only [isHighSurrogate, isLowSurrogate, Bool.and_eq_false_iff, decide_eq_false_iff_not]
  omega

theorem codeUnit?_controlDigits (n : Nat) (h : n < 32) :
    codeUnit? '0' '0' (Nat.digitChar (n / 16)) (Nat.digitChar (n % 16)) = some n := by
  revert n
  decide

/-- A character that is neither the quote nor the backslash nor a control character stands for itself. -/
theorem stringUnits?_plain {c : Char} (hcontrol : ' ' ≤ c) (hquote : c ≠ '"') (hbackslash : c ≠ '\\')
    (s : List Char) :
    stringUnits? (c :: s) = (stringUnits? s).map fun units => (c.toNat :: units.1, units.2) := by
  rw [stringUnits?, if_neg (Char.not_lt.mpr hcontrol)]
  · cases stringUnits? s <;> rfl
  · exact hquote
  · exact fun _ _ _ _ _ h => absurd h hbackslash
  · exact fun _ _ h => absurd h hbackslash

/-- A character is read off the text between the quotes that it is written as. -/
theorem stringUnits?_escapeChar (c : Char) (rest : List Char) :
    stringUnits? (escapeChar c ++ rest) =
      (stringUnits? rest).map fun units => (c.toNat :: units.1, units.2) := by
  unfold escapeChar
  split
  case h_8 hquote hbackslash _ _ _ _ _ =>
    split
    next hcontrol =>
      have hunit := codeUnit?_controlDigits c.toNat hcontrol
      simp only [controlDigits, List.cons_append, List.nil_append, stringUnits?, hunit]
      cases stringUnits? rest <;> rfl
    next hcontrol =>
      exact stringUnits?_plain (Char.not_lt.mp hcontrol) hquote hbackslash rest
  all_goals
    simp only [List.cons_append, List.nil_append]
    cases h : stringUnits? rest <;> simp [stringUnits?, escaped?, h]

theorem stringUnits?_flatMap_escapeChar (s rest : List Char) :
    stringUnits? (s.flatMap escapeChar ++ '"' :: rest) = some (s.map Char.toNat, rest) := by
  induction s with
  | nil => rfl
  | cons c s ih =>
    rw [List.flatMap_cons, List.append_assoc, stringUnits?_escapeChar, ih]
    rfl

theorem decodeUnits?_point (c : Char) (units : List Nat) :
    decodeUnits? (c.toNat :: units) = (decodeUnits? units).map (c :: ·) := by
  obtain ⟨hhigh, hlow⟩ := not_surrogate c
  cases units with
  | nil => simp [decodeUnits?, hhigh, hlow, Char.ofNat_toNat]
  | cons unit units =>
    rw [decodeUnits?, if_neg (by simp [hhigh]), if_neg (by simp [hlow]), Char.ofNat_toNat]
    cases decodeUnits? (unit :: units) <;> rfl

theorem decodeUnits?_map_toNat (s : List Char) : decodeUnits? (s.map Char.toNat) = some s := by
  induction s with
  | nil => rfl
  | cons c s ih => rw [List.map_cons, decodeUnits?_point, ih, Option.map_some]

end Strings

section Numbers

/-- What no number goes on with. -/
def Ends (s : List Char) : Prop :=
  ∀ c ∈ s.head?, c.isDigit = false ∧ c ≠ '.' ∧ c ≠ 'e' ∧ c ≠ 'E'

theorem digits?_append {digits rest : List Char} (hne : digits ≠ [])
    (h : ∀ c ∈ digits, c.isDigit = true) (hrest : ∀ c ∈ rest.head?, c.isDigit = false) :
    digits? (digits ++ rest) = some (digits, rest) := by
  have htake : rest.takeWhile Char.isDigit = [] := by
    cases rest with
    | nil => rfl
    | cons c rest => exact List.takeWhile_cons_of_neg (by simp [hrest c rfl])
  have hdrop : rest.dropWhile Char.isDigit = rest := by
    cases rest with
    | nil => rfl
    | cons c rest => exact List.dropWhile_cons_of_neg (by simp [hrest c rfl])
  rw [digits?, List.takeWhile_append_of_pos h, List.dropWhile_append_of_pos h, htake, hdrop,
    List.append_nil, if_neg (by simpa using hne)]

theorem isDigit_of_mem_toDigits {n : Nat} {c : Char} (hc : c ∈ Nat.toDigits 10 n) :
    c.isDigit = true :=
  Nat.isDigit_of_mem_toDigits (by decide) (by decide) hc

theorem natOfDigits_toDigits (n : Nat) : natOfDigits (Nat.toDigits 10 n) = n :=
  Nat.ofDigitChars_ten_toDigits

theorem exists_toDigits_eq_cons (n : Nat) :
    ∃ c cs, Nat.toDigits 10 n = c :: cs ∧ c.isDigit = true := by
  obtain ⟨c, cs, h⟩ := List.exists_cons_of_ne_nil (Nat.toDigits_ne_nil (n := n) (b := 10))
  exact ⟨c, cs, h, isDigit_of_mem_toDigits (h ▸ List.mem_cons_self)⟩

theorem exists_decimal_eq_cons (n : Int) :
    ∃ c cs, Text.decimal n = c :: cs ∧ (c = '-' ∨ c.isDigit = true) := by
  cases n with
  | ofNat n =>
    obtain ⟨c, cs, heq, hc⟩ := exists_toDigits_eq_cons n
    exact ⟨c, cs, heq, .inr hc⟩
  | negSucc n => exact ⟨'-', Nat.toDigits 10 (n + 1), rfl, .inl rfl⟩

/-- Only zero is written with a zero in front. -/
theorem toDigits_eq_of_head? {n : Nat} (h : (Nat.toDigits 10 n).head? = some '0') :
    Nat.toDigits 10 n = ['0'] := by
  induction n using Nat.strongRecOn with
  | ind n ih =>
    rcases Nat.lt_or_ge n 10 with hlt | hge
    · rw [Nat.toDigits_of_lt_base hlt] at h ⊢
      rw [List.head?_cons] at h
      rw [Option.some.inj h]
    · have hfront : (Nat.toDigits 10 (n / 10)).head? = some '0' := by
        obtain ⟨c, cs, hcons, -⟩ := exists_toDigits_eq_cons (n / 10)
        rw [Nat.toDigits_of_base_le (by decide) hge, hcons] at h
        rw [hcons]
        exact h
      have hvalue := natOfDigits_toDigits (n / 10)
      rw [ih (n / 10) (by omega) hfront] at hvalue
      have hzero : natOfDigits ['0'] = 0 := rfl
      omega

theorem wholeDigits?_toDigits (n : Nat) {rest : List Char}
    (hrest : ∀ c ∈ rest.head?, c.isDigit = false) :
    wholeDigits? (Nat.toDigits 10 n ++ rest) = some (Nat.toDigits 10 n, rest) := by
  have hdigits := digits?_append Nat.toDigits_ne_nil (fun _ => isDigit_of_mem_toDigits (n := n)) hrest
  rw [wholeDigits?, hdigits]
  refine if_neg ?_
  rintro ⟨hhead, hne⟩
  exact hne (toDigits_eq_of_head? hhead)

theorem minus_decimal (n : Int) (rest : List Char) :
    minus (Text.decimal n ++ rest) = (decide (n < 0), Nat.toDigits 10 n.natAbs ++ rest) := by
  cases n with
  | ofNat n =>
    obtain ⟨c, cs, h, hc⟩ := exists_toDigits_eq_cons n
    have hne : c ≠ '-' := by
      rintro rfl
      exact absurd hc (by decide)
    have hsign : decide (Int.ofNat n < 0) = false := by simp
    rw [Text.decimal, hsign]
    show minus (Nat.toDigits 10 n ++ rest) = (false, Nat.toDigits 10 n ++ rest)
    rw [h, List.cons_append, minus]
    exact fun rest' => by simp [hne]
  | negSucc n =>
    have hsign : decide (Int.negSucc n < 0) = true := by simp
    rw [Text.decimal, hsign]
    rfl

theorem sign_decimal (n : Int) (rest : List Char) :
    sign (Text.decimal n ++ rest) = minus (Text.decimal n ++ rest) := by
  obtain ⟨c, cs, heq, hc⟩ := exists_decimal_eq_cons n
  have hne : c ≠ '+' := by
    rintro rfl
    revert hc
    decide
  rw [heq, List.cons_append, sign]
  exact fun rest' => by simp [hne]

theorem signed_natAbs (n : Int) : signed (decide (n < 0)) n.natAbs = n := by
  unfold signed
  split
  next h =>
    have := of_decide_eq_true h
    omega
  next h =>
    have := of_decide_eq_false (eq_false_of_ne_true h)
    omega

theorem fractionDigits?_of_ends {rest : List Char} (h : ∀ c ∈ rest.head?, c ≠ '.') :
    fractionDigits? rest = some ([], rest) := by
  rw [fractionDigits?]
  rintro rest' rfl
  exact h '.' rfl rfl

theorem exponent?_of_ends {rest : List Char} (h : ∀ c ∈ rest.head?, c ≠ 'e' ∧ c ≠ 'E') :
    exponent? rest = some (none, rest) := by
  rw [exponent?]
  · rintro rest' rfl
    exact (h 'e' rfl).1 rfl
  · rintro rest' rfl
    exact (h 'E' rfl).2 rfl

theorem exponent?_decimal (e : Int) {rest : List Char}
    (hrest : ∀ c ∈ rest.head?, c.isDigit = false) :
    exponent? ('e' :: (Text.decimal e ++ rest)) = some (some e, rest) := by
  have hdigits := digits?_append Nat.toDigits_ne_nil
    (fun _ => isDigit_of_mem_toDigits (n := e.natAbs)) hrest
  rw [exponent?, sign_decimal, minus_decimal, hdigits, Option.map_some]
  dsimp only
  rw [natOfDigits_toDigits, signed_natAbs]

theorem numberOf_integer (n : Int) :
    numberOf (decide (n < 0)) (Nat.toDigits 10 n.natAbs) [] none = integer n := by
  have hnot : ¬(decide (n < 0) = true ∧ Nat.toDigits 10 n.natAbs = ['0']) := by
    rintro ⟨hsign, hdigits⟩
    have hvalue := natOfDigits_toDigits n.natAbs
    rw [hdigits] at hvalue
    have hzero : natOfDigits ['0'] = 0 := rfl
    have := of_decide_eq_true hsign
    omega
  rw [numberOf, if_pos (by rfl), if_neg hnot, natOfDigits_toDigits, signed_natAbs]

theorem number?_integer (n : Int) {rest : List Char} (hrest : Ends rest) :
    number? (Text.decimal n ++ rest) = some (integer n, rest) := by
  have hwhole := wholeDigits?_toDigits n.natAbs fun c hc => (hrest c hc).1
  have hfraction := fractionDigits?_of_ends fun c hc => (hrest c hc).2.1
  have hexponent := exponent?_of_ends fun c hc => (hrest c hc).2.2
  simp only [number?, minus_decimal, hwhole, hfraction, hexponent, Option.bind_eq_bind,
    Option.bind_some, numberOf_integer]
  rfl

theorem number?_decimal (m e : Int) {rest : List Char} (hrest : Ends rest) :
    number? (Text.decimal m ++ 'e' :: (Text.decimal e ++ rest)) = some (decimal m e, rest) := by
  have hwhole : wholeDigits? (Nat.toDigits 10 m.natAbs ++ 'e' :: (Text.decimal e ++ rest)) =
      some (Nat.toDigits 10 m.natAbs, 'e' :: (Text.decimal e ++ rest)) := by
    apply wholeDigits?_toDigits
    intro c hc
    obtain rfl := Option.some.inj hc
    decide
  have hfraction : fractionDigits? ('e' :: (Text.decimal e ++ rest)) =
      some ([], 'e' :: (Text.decimal e ++ rest)) := rfl
  have hexponent := exponent?_decimal e fun c hc => (hrest c hc).1
  have hnumber : numberOf (decide (m < 0)) (Nat.toDigits 10 m.natAbs) [] (some e) = decimal m e := by
    rw [numberOf, List.append_nil, natOfDigits_toDigits, signed_natAbs]
    simp
  simp only [number?, minus_decimal, hwhole, hfraction, hexponent, Option.bind_eq_bind,
    Option.bind_some, hnumber]
  rfl

theorem number?_negativeZero {rest : List Char} (hrest : Ends rest) :
    number? ('-' :: '0' :: rest) = some (negativeZero, rest) := by
  have hwhole : wholeDigits? ('0' :: rest) = some (['0'], rest) :=
    wholeDigits?_toDigits 0 fun c hc => (hrest c hc).1
  have hfraction := fractionDigits?_of_ends fun c hc => (hrest c hc).2.1
  have hexponent := exponent?_of_ends fun c hc => (hrest c hc).2.2
  simp only [number?, minus, hwhole, hfraction, hexponent, Option.bind_eq_bind, Option.bind_some]
  rfl

end Numbers

section Lexemes

variable {s rest : List Char} {x : Lexeme}

/-- A text that begins with a number begins with no other lexeme. -/
theorem first?_of_number? {j : Json} (h : number? s = some (j, rest)) :
    Lexeme.first? s = some (.scalar j, rest) := by
  unfold Lexeme.first?
  split
  case h_11 => rw [h]; rfl
  all_goals simp [number?, minus, wholeDigits?, digits?] at h

theorem lexemes?_eq (s : List Char) :
    lexemes? s = match s.dropWhile isSpace with
      | [] => some []
      | c :: rest => (Lexeme.first? (c :: rest)).bind fun first =>
        (lexemes? first.2).map (first.1 :: ·) := by
  rw [lexemes?]
  split
  next heq => rw [heq]
  next c rest heq =>
    rw [heq]
    dsimp only
    split
    next hfirst => rw [hfirst, Option.bind_none]
    next hfirst => rw [hfirst, Option.bind_some]

theorem lexemes?_spaces {spaces : List Char} (h : ∀ c ∈ spaces, isSpace c = true)
    (s : List Char) : lexemes? (spaces ++ s) = lexemes? s := by
  rw [lexemes?_eq, lexemes?_eq s, List.dropWhile_append_of_pos h]

theorem lexemes?_nil : lexemes? [] = some [] := lexemes?_eq []

theorem lexemes?_of_first? {c : Char} (h : Lexeme.first? (c :: s) = some (x, rest))
    (hc : isSpace c = false) : lexemes? (c :: s) = (lexemes? rest).map (x :: ·) := by
  rw [lexemes?_eq, List.dropWhile_cons_of_neg (by simp [hc])]
  dsimp only
  rw [h]
  rfl

theorem not_isSpace_of_isDigit {c : Char} (h : c.isDigit = true) : isSpace c = false := by
  rw [isSpace]
  simp only [Bool.or_eq_false_iff, beq_eq_false_iff_ne]
  refine ⟨⟨⟨?_, ?_⟩, ?_⟩, ?_⟩ <;>
  · rintro rfl
    exact absurd h (by decide)

end Lexemes

end DecompConfig.Json
