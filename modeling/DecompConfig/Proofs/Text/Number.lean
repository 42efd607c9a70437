import DecompConfig.Proofs.Text.Blank
import DecompConfig.Text.Number
import Mathlib.Data.List.Forall2
import Mathlib.Data.Nat.Digits.Defs

namespace DecompConfig.Text

/-- The character is the digit `d` of a base of at most sixteen, as a letter of either case. -/
def IsDigit (base : Nat) (c : Char) (d : Nat) : Prop :=
  d < base ∧ (c = Nat.digitChar d ∨ c = (Nat.digitChar d).toUpper)

/-- One or more digits and the number that they write, the digit of the greatest weight first. Zeros in
front of it are digits like others. -/
def Numeral (base : Nat) (s : List Char) (n : Nat) : Prop :=
  ∃ digits, digits ≠ [] ∧ List.Forall₂ (IsDigit base) s digits ∧ n = Nat.ofDigits base digits.reverse

section Digits

variable {base d : Nat} {c : Char}

theorem toNat_of_letterValue? (h : letterValue? c = some d) :
    (c.toNat = 48 + d ∧ d < 10) ∨ (10 ≤ d ∧ (c.toNat = 87 + d ∨ c.toNat = 55 + d)) := by
  unfold letterValue? at h
  have hzero : '0'.toNat = 48 := rfl
  have hnine : '9'.toNat = 57 := rfl
  have ha : 'a'.toNat = 97 := rfl
  have hA : 'A'.toNat = 65 := rfl
  have hle {a b : Char} : a ≤ b ↔ a.toNat ≤ b.toNat := Iff.rfl
  simp only [hle] at h
  split at h
  · have := Option.some.inj h
    omega
  · split at h
    · have := Option.some.inj h
      omega
    · split at h
      · have := Option.some.inj h
        omega
      · cases h

theorem letterValue?_digitChar (h : d < 16) :
    letterValue? (Nat.digitChar d) = some d ∧ letterValue? (Nat.digitChar d).toUpper = some d := by
  revert d
  decide

theorem eq_digitChar_of_letterValue? (hd : d < 16) (h : letterValue? c = some d) :
    c = Nat.digitChar d ∨ c = (Nat.digitChar d).toUpper := by
  have hdecimal : ∀ d < 10, (Nat.digitChar d).toNat = 48 + d := by decide
  have hletter : ∀ d < 16, 10 ≤ d → (Nat.digitChar d).toNat = 87 + d ∧
      (Nat.digitChar d).toUpper.toNat = 55 + d := by decide
  rcases toNat_of_letterValue? h with ⟨hc, hlt⟩ | ⟨hge, hc | hc⟩
  · exact .inl (Char.toNat_inj.mp (hc.trans (hdecimal d hlt).symm))
  · exact .inl (Char.toNat_inj.mp (hc.trans (hletter d hd hge).1.symm))
  · exact .inr (Char.toNat_inj.mp (hc.trans (hletter d hd hge).2.symm))

theorem digitValue?_eq_some_iff (hbase : base ≤ 16) :
    digitValue? base c = some d ↔ IsDigit base c d := by
  rw [digitValue?, Option.filter_eq_some_iff, decide_eq_true_iff, IsDigit]
  constructor
  · rintro ⟨hvalue, hd⟩
    exact ⟨hd, eq_digitChar_of_letterValue? (by omega) hvalue⟩
  · rintro ⟨hd, rfl | rfl⟩
    · exact ⟨(letterValue?_digitChar (by omega)).1, hd⟩
    · exact ⟨(letterValue?_digitChar (by omega)).2, hd⟩

theorem not_isBlank_of_isDigit (hbase : base ≤ 16) (h : IsDigit base c d) : isBlank c = false := by
  have hall : ∀ d < 16, isBlank (Nat.digitChar d) = false ∧
      isBlank (Nat.digitChar d).toUpper = false := by decide
  obtain ⟨hd, rfl | rfl⟩ := h
  · exact (hall d (by omega)).1
  · exact (hall d (by omega)).2

end Digits

section Numerals

variable {base bound n : Nat} {s : List Char}

/-- A number that is continued by digits stands in front of them as a digit of its own. -/
theorem continueNat?_eq_some_iff (hbase : base ≤ 16) {start : Nat} :
    continueNat? base start s = some n ↔
      ∃ digits, List.Forall₂ (IsDigit base) s digits ∧
        n = Nat.ofDigits base (digits.reverse ++ [start]) := by
  induction s generalizing start with
  | nil => simp [continueNat?, Nat.ofDigits_singleton, eq_comm]
  | cons c s ih =>
    have hstep (d : Nat) (digits : List Nat) :
        Nat.ofDigits base ((d :: digits).reverse ++ [start]) =
          Nat.ofDigits base (digits.reverse ++ [start * base + d]) := by
      have hlast : Nat.ofDigits base [d, start] = start * base + d := by
        rw [Nat.ofDigits_cons, Nat.ofDigits_singleton, Nat.mul_comm, Nat.add_comm]
      rw [List.reverse_cons, List.append_assoc, List.singleton_append, Nat.ofDigits_append, hlast,
        Nat.ofDigits_append, Nat.ofDigits_singleton]
    simp only [continueNat?, Option.bind_eq_bind, Option.bind_eq_some_iff,
      digitValue?_eq_some_iff hbase, ih, List.forall₂_cons_left_iff]
    constructor
    · rintro ⟨d, hd, digits, hdigits, rfl⟩
      exact ⟨d :: digits, ⟨d, digits, hd, hdigits, rfl⟩, (hstep d digits).symm⟩
    · rintro ⟨_, ⟨d, digits, hd, hdigits, rfl⟩, rfl⟩
      exact ⟨d, hd, digits, hdigits, hstep d digits⟩

theorem digits?_eq_some_iff (hbase : base ≤ 16) : digits? base s = some n ↔ Numeral base s n := by
  cases s with
  | nil =>
    constructor
    · nofun
    · rintro ⟨digits, hne, hdigits, -⟩
      exact absurd (List.forall₂_nil_left_iff.mp hdigits) hne
  | cons c s =>
    have hzero (digits : List Nat) :
        Nat.ofDigits base (digits.reverse ++ [0]) = Nat.ofDigits base digits.reverse := by
      rw [Nat.ofDigits_append, Nat.ofDigits_singleton, Nat.mul_zero, Nat.add_zero]
    rw [digits?, continueNat?_eq_some_iff hbase]
    · simp only [hzero]
      constructor
      · rintro ⟨digits, hdigits, hn⟩
        have hne : digits ≠ [] := by
          rintro rfl
          cases hdigits
        exact ⟨digits, hne, hdigits, hn⟩
      · rintro ⟨digits, -, hdigits, hn⟩
        exact ⟨digits, hdigits, hn⟩
    · nofun

theorem Numeral.exists_digit (h : Numeral base s n) {c : Char} (hc : c ∈ s) :
    ∃ d, IsDigit base c d := by
  obtain ⟨digits, -, hdigits, -⟩ := h
  obtain ⟨i, hi, rfl⟩ := List.getElem_of_mem hc
  exact ⟨_, List.Forall₂.get hdigits hi (hdigits.length_eq ▸ hi)⟩

theorem Numeral.lt_pow_length (hbase : 1 < base) (h : Numeral base s n) : n < base ^ s.length := by
  obtain ⟨digits, -, hdigits, rfl⟩ := h
  obtain ⟨hlt, -⟩ := (List.forall₂_and_left _ _).mp hdigits.flip
  have hbound := Nat.ofDigits_lt_base_pow_length hbase fun d hd => hlt d (List.mem_reverse.mp hd)
  rwa [List.length_reverse, ← hdigits.length_eq] at hbound

theorem Numeral.concat (h : Numeral base s n) {d : Nat} (hd : d < base) :
    Numeral base (s ++ [Nat.digitChar d]) (n * base + d) := by
  obtain ⟨digits, -, hdigits, rfl⟩ := h
  refine ⟨digits ++ [d], by simp, List.rel_append hdigits (.cons ⟨hd, .inl rfl⟩ .nil), ?_⟩
  rw [List.reverse_append, List.reverse_singleton, List.singleton_append, Nat.ofDigits_cons,
    Nat.mul_comm, Nat.add_comm]

theorem numeral_toDigits (hbase : 1 < base) (n : Nat) : Numeral base (Nat.toDigits base n) n := by
  induction n using Nat.strongRecOn with
  | ind n ih =>
    rcases Nat.lt_or_ge n base with hlt | hge
    · rw [Nat.toDigits_of_lt_base hlt]
      refine ⟨[n], by simp, .cons ⟨hlt, .inl rfl⟩ .nil, ?_⟩
      rw [List.reverse_singleton, Nat.ofDigits_singleton]
    · have hfront := ih (n / base) (Nat.div_lt_self (by omega) hbase)
      have hlast : n % base < base := Nat.mod_lt n (by omega)
      have hvalue : n / base * base + n % base = n := Nat.div_add_mod' n base
      have hwhole := hfront.concat hlast
      rwa [hvalue, ← Nat.toDigits_of_base_le hbase hge] at hwhole

end Numerals

section Signs

variable {base bound n : Nat} {s : List Char}

/-- What may stand in front of a number that is not negative. -/
def Plus (s : List Char) : Prop := s = [] ∨ s = ['+']

theorem not_isDigit_sign (hbase : base ≤ 16) {c : Char} (hc : c = '+' ∨ c = '-') (d : Nat) :
    ¬IsDigit base c d := by
  rw [← digitValue?_eq_some_iff hbase, digitValue?]
  rcases hc with rfl | rfl
  · exact nofun
  · exact nofun

theorem digits?_eq_none_of_sign (hbase : base ≤ 16) {c : Char} (hc : c = '+' ∨ c = '-')
    (s : List Char) : digits? base (c :: s) = none := by
  apply Option.eq_none_iff_forall_ne_some.mpr
  intro n h
  obtain ⟨d, hd⟩ := ((digits?_eq_some_iff hbase).mp h).exists_digit List.mem_cons_self
  exact not_isDigit_sign hbase hc d hd

theorem filter_eq_bind (o : Option Nat) :
    (o >>= fun m => if m < bound then some m else none) = o.filter (· < bound) := by
  cases o with
  | none => rfl
  | some m => rw [Option.filter_some]; simp

theorem nat?_plus (s : List Char) : nat? base bound ('+' :: s) = (digits? base s).filter (· < bound) :=
  filter_eq_bind _

theorem nat?_of_not_plus (h : ∀ t, s ≠ '+' :: t) :
    nat? base bound s = (digits? base s).filter (· < bound) := by
  unfold nat?
  split
  next t => exact absurd rfl (h t)
  next => exact filter_eq_bind _

theorem nat?_eq_some_iff (hbase : base ≤ 16) : nat? base bound s = some n ↔
    ∃ plus t, s = plus ++ t ∧ Plus plus ∧ Numeral base t n ∧ n < bound := by
  have hread {t : List Char} : (digits? base t).filter (· < bound) = some n ↔
      Numeral base t n ∧ n < bound := by
    rw [Option.filter_eq_some_iff, digits?_eq_some_iff hbase, decide_eq_true_iff]
  constructor
  · intro h
    by_cases hplus : ∃ t, s = '+' :: t
    · obtain ⟨t, rfl⟩ := hplus
      rw [nat?_plus, hread] at h
      exact ⟨['+'], t, rfl, .inr rfl, h⟩
    · rw [nat?_of_not_plus (not_exists.mp hplus), hread] at h
      exact ⟨[], s, rfl, .inl rfl, h⟩
  · rintro ⟨plus, t, rfl, rfl | rfl, ht⟩
    · have hplus (u : List Char) : [] ++ t ≠ '+' :: u := by
        rintro rfl
        have hnone := digits?_eq_none_of_sign hbase (.inl rfl) u
        rw [(digits?_eq_some_iff hbase).mpr ht.1] at hnone
        cases hnone
      rw [nat?_of_not_plus hplus]
      exact hread.mpr ht
    · exact (nat?_plus t).trans (hread.mpr ht)

theorem nat?_eq_filter {bound' : Nat} (h : bound ≤ bound') (s : List Char) :
    nat? base bound s = (nat? base bound' s).filter (· < bound) := by
  have hfilter (o : Option Nat) :
      o.filter (· < bound) = (o.filter (· < bound')).filter (· < bound) := by
    rw [Option.filter_filter]
    congr 1
    funext m
    rw [← Bool.decide_and]
    congr 1
    apply propext
    omega
  by_cases hplus : ∃ t, s = '+' :: t
  · obtain ⟨t, rfl⟩ := hplus
    rw [nat?_plus, nat?_plus, ← hfilter]
  · rw [nat?_of_not_plus (not_exists.mp hplus), nat?_of_not_plus (not_exists.mp hplus), ← hfilter]

theorem nat?_minus (hbase : base ≤ 16) (s : List Char) : nat? base bound ('-' :: s) = none := by
  rw [nat?_of_not_plus (by simp), digits?_eq_none_of_sign hbase (.inr rfl)]
  rfl

theorem int?_minus {k : Int} : int? bound ('-' :: s) = some k ↔
    ∃ n, Numeral 10 s n ∧ n ≤ bound ∧ k = -n := by
  simp only [int?, Option.bind_eq_bind, Option.bind_eq_some_iff,
    digits?_eq_some_iff (by decide : 10 ≤ 16)]
  constructor
  · rintro ⟨n, hn, h⟩
    split at h
    next hle => exact ⟨n, hn, hle, (Option.some.inj h).symm⟩
    next => cases h
  · rintro ⟨n, hn, hle, rfl⟩
    exact ⟨n, hn, if_pos hle⟩

theorem int?_of_not_minus (h : ∀ t, s ≠ '-' :: t) : int? bound s = (nat? 10 bound s).map Int.ofNat := by
  unfold int?
  split
  next t => exact absurd rfl (h t)
  next => rfl

end Signs

end DecompConfig.Text
