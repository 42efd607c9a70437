import DecompConfig.Proofs.Analysis.Json
import DecompConfig.Proofs.Frame.Offset
import DecompConfig.Proofs.Text.Number

namespace DecompConfig.RawOffset

open Text

/-- The texts that write an offset, without blanks around them, and the number that they write. -/
inductive Spelling : List Char → Int → Prop
  | hexadecimal {x : Char} {plus s : List Char} {n : Nat} :
    x = 'x' ∨ x = 'X' → Plus plus → Numeral 16 s n → n < 2 ^ 64 → Spelling ('0' :: x :: (plus ++ s)) n
  | decimal {plus s : List Char} {n : Nat} :
    Plus plus → Numeral 10 s n → n < 2 ^ 64 → Spelling (plus ++ s) n
  | negative {s : List Char} {n : Nat} : Numeral 10 s n → n ≤ 2 ^ 63 → Spelling ('-' :: s) (-n)

/-- The offset that decimal digits write. -/
def ofDecimal (n : Nat) : RawOffset :=
  if n < Nat.pow 2 63 then signed (.ofInt n) else wire (.ofNat n)

section Reading

variable {s : List Char} {k : Int} {n : Nat} {x : Char}

theorem toInt_wire_ofNat (h : n < 2 ^ 64) : (wire (.ofNat n)).toInt = n := by
  rw [toInt, UInt64.toNat_ofNat', Nat.mod_eq_of_lt h]

theorem toInt_ofDecimal (h : n < 2 ^ 64) : (ofDecimal n).toInt = n := by
  have hhalf : Nat.pow 2 63 = 2 ^ 63 := rfl
  rw [ofDecimal]
  split
  · exact Int64.toInt_ofInt_of_le (by omega) (by omega)
  · exact toInt_wire_ofNat h

theorem ofText?_hexadecimal (hx : x = 'x' ∨ x = 'X') (s : List Char) :
    ofText? ('0' :: x :: s) = (nat? 16 UInt64.size s).map fun n => wire (.ofNat n) := by
  rcases hx with rfl | rfl
  · rfl
  · rfl

theorem ofText?_minus (s : List Char) :
    ofText? ('-' :: s) = (int? (Nat.pow 2 63) ('-' :: s)).map fun n => signed (.ofInt n) := by
  have hword : nat? 10 UInt64.size ('-' :: s) = none := nat?_minus (by decide) s
  rw [ofText?, hword]
  · cases int? (Nat.pow 2 63) ('-' :: s) <;> rfl
  · simp
  · simp

theorem ofText?_decimal (hhexadecimal : ∀ x t, x = 'x' ∨ x = 'X' → s ≠ '0' :: x :: t)
    (hminus : ∀ t, s ≠ '-' :: t) : ofText? s = (nat? 10 UInt64.size s).map ofDecimal := by
  have hle : Nat.pow 2 63 ≤ UInt64.size := by decide
  have hsigned : int? (Nat.pow 2 63) s =
      ((nat? 10 UInt64.size s).filter (· < Nat.pow 2 63)).map Int.ofNat := by
    rw [int?_of_not_minus hminus, nat?_eq_filter hle]
  rw [ofText?, hsigned]
  · cases nat? 10 UInt64.size s with
    | none => rfl
    | some n =>
      rw [Option.filter_some]
      by_cases hlt : n < Nat.pow 2 63
      · have hvalue : ofDecimal n = signed (.ofInt n) := if_pos hlt
        rw [if_pos (decide_eq_true hlt)]
        exact congrArg some hvalue.symm
      · have hvalue : ofDecimal n = wire (.ofNat n) := if_neg hlt
        rw [if_neg (by simpa using hlt)]
        exact congrArg some hvalue.symm
  · exact fun t => hhexadecimal 'x' t (.inl rfl)
  · exact fun t => hhexadecimal 'X' t (.inr rfl)

theorem spelling_hexadecimal_iff (hx : x = 'x' ∨ x = 'X') :
    Spelling ('0' :: x :: s) k ↔ ∃ n, nat? 16 UInt64.size s = some n ∧ k = n := by
  simp only [nat?_eq_some_iff (by decide : 16 ≤ 16)]
  constructor
  · intro h
    generalize hs : '0' :: x :: s = text at h
    cases h with
    | hexadecimal hx' hplus hs' hlt =>
      obtain ⟨-, hrest⟩ := List.cons_eq_cons.mp hs
      obtain ⟨-, rfl⟩ := List.cons_eq_cons.mp hrest
      exact ⟨_, ⟨_, _, rfl, hplus, hs', hlt⟩, rfl⟩
    | negative => simp at hs
    | decimal hplus hs' hlt =>
      -- The letter is no decimal digit.
      obtain rfl | rfl := hplus
      · have hmem : x ∈ '0' :: x :: s := by simp
        rw [hs] at hmem
        obtain ⟨d, hd⟩ := hs'.exists_digit hmem
        rw [← digitValue?_eq_some_iff (by decide)] at hd
        rcases hx with rfl | rfl <;> cases hd
      · simp at hs
  · rintro ⟨n, ⟨plus, t, rfl, hplus, ht, hlt⟩, rfl⟩
    exact .hexadecimal hx hplus ht hlt

theorem spelling_minus_iff :
    Spelling ('-' :: s) k ↔ ∃ n, int? (Nat.pow 2 63) ('-' :: s) = some n ∧ k = n := by
  have hread : (∃ n, int? (Nat.pow 2 63) ('-' :: s) = some n ∧ k = n) ↔
      ∃ n, Numeral 10 s n ∧ n ≤ 2 ^ 63 ∧ k = -n := by
    rw [exists_eq_right', int?_minus]
    rfl
  rw [hread]
  constructor
  · intro h
    generalize hs : '-' :: s = text at h
    cases h with
    | hexadecimal => simp at hs
    | negative hs' hle =>
      obtain ⟨-, rfl⟩ := List.cons_eq_cons.mp hs
      exact ⟨_, hs', hle, rfl⟩
    | decimal hplus hs' hlt =>
      obtain rfl | rfl := hplus
      · obtain ⟨d, hd⟩ := hs'.exists_digit (hs ▸ List.mem_cons_self)
        exact absurd hd (not_isDigit_sign (by decide) (.inr rfl) d)
      · simp at hs
  · rintro ⟨n, hs, hle, rfl⟩
    exact .negative hs hle

theorem spelling_decimal_iff (hhexadecimal : ∀ x t, x = 'x' ∨ x = 'X' → s ≠ '0' :: x :: t)
    (hminus : ∀ t, s ≠ '-' :: t) : Spelling s k ↔ ∃ n, nat? 10 UInt64.size s = some n ∧ k = n := by
  simp only [nat?_eq_some_iff (by decide : 10 ≤ 16)]
  constructor
  · intro h
    cases h with
    | hexadecimal hx => exact absurd rfl (hhexadecimal _ _ hx)
    | negative => exact absurd rfl (hminus _)
    | decimal hplus hs hlt => exact ⟨_, ⟨_, _, rfl, hplus, hs, hlt⟩, rfl⟩
  · rintro ⟨n, ⟨plus, t, rfl, hplus, ht, hlt⟩, rfl⟩
    exact .decimal hplus ht hlt

theorem map_toInt_eq_some_iff {α : Type} {o : Option α} {f : α → RawOffset} {value : α → Int}
    (h : ∀ a, o = some a → (f a).toInt = value a) :
    (o.map f).map toInt = some k ↔ ∃ a, o = some a ∧ k = value a := by
  cases o with
  | none => simp
  | some a => simp [h a rfl, eq_comm]

theorem inRange_of_int?_minus {n : Int} (h : int? (Nat.pow 2 63) ('-' :: s) = some n) :
    -2 ^ 63 ≤ n ∧ n < 2 ^ 63 := by
  obtain ⟨m, -, hle, rfl⟩ := int?_minus.mp h
  have hhalf : Nat.pow 2 63 = 2 ^ 63 := rfl
  omega

theorem lt_of_nat? {base : Nat} (hbase : base ≤ 16) (h : nat? base UInt64.size s = some n) :
    n < 2 ^ 64 := by
  obtain ⟨-, -, -, -, -, hlt⟩ := (nat?_eq_some_iff hbase).mp h
  exact hlt

/-- What is read are the spellings, each as the number that it writes. -/
theorem map_toInt_ofText?_eq_some_iff : (ofText? s).map toInt = some k ↔ Spelling s k := by
  by_cases hhexadecimal : ∃ x t, (x = 'x' ∨ x = 'X') ∧ s = '0' :: x :: t
  · obtain ⟨x, t, hx, rfl⟩ := hhexadecimal
    rw [ofText?_hexadecimal hx, spelling_hexadecimal_iff hx]
    exact map_toInt_eq_some_iff fun n h => toInt_wire_ofNat (lt_of_nat? (by decide) h)
  by_cases hminus : ∃ t, s = '-' :: t
  · obtain ⟨t, rfl⟩ := hminus
    rw [ofText?_minus, spelling_minus_iff]
    exact map_toInt_eq_some_iff fun n h =>
      Int64.toInt_ofInt_of_le (inRange_of_int?_minus h).1 (inRange_of_int?_minus h).2
  · have hhexadecimal' : ∀ x t, x = 'x' ∨ x = 'X' → s ≠ '0' :: x :: t :=
      fun x t hx hs => hhexadecimal ⟨x, t, hx, hs⟩
    rw [ofText?_decimal hhexadecimal' (not_exists.mp hminus),
      spelling_decimal_iff hhexadecimal' (not_exists.mp hminus)]
    exact map_toInt_eq_some_iff fun n h => toInt_ofDecimal (lt_of_nat? (by decide) h)

end Reading

section Parsing

variable {text : String} {s : List Char} {k : Int} {raw : RawOffset}

theorem Spelling.not_isBlank (h : Spelling s k) : ∀ c ∈ s, isBlank c = false := by
  have hplus {plus : List Char} (h : Plus plus) : ∀ d ∈ plus, isBlank d = false := by
    rcases h with rfl | rfl
    · exact nofun
    · exact List.forall_mem_singleton.mpr (by decide +kernel)
  have hdigits {base n : Nat} {t : List Char} (hbase : base ≤ 16) (h : Numeral base t n) :
      ∀ d ∈ t, isBlank d = false := fun d hd =>
    (h.exists_digit hd).elim fun _ hdigit => not_isBlank_of_isDigit hbase hdigit
  cases h with
  | hexadecimal hx hsign hs _ =>
    have hrest := List.forall_mem_append.mpr ⟨hplus hsign, hdigits (by decide) hs⟩
    refine List.forall_mem_cons.mpr ⟨rfl, List.forall_mem_cons.mpr ⟨?_, hrest⟩⟩
    rcases hx with rfl | rfl
    · rfl
    · rfl
  | decimal hsign hs _ =>
    exact List.forall_mem_append.mpr ⟨hplus hsign, hdigits (by decide) hs⟩
  | negative hs _ => exact List.forall_mem_cons.mpr ⟨rfl, hdigits (by decide) hs⟩

theorem parse_eq_ok_iff : parse text = .ok raw ↔ ofText? (trim text.toList) = some raw := by
  rw [parse]
  cases ofText? (trim text.toList) <;> simp

theorem parse_eq_error (h : parse text = .error e) : e = ⟨.ofList (trim text.toList)⟩ := by
  rw [parse] at h
  cases hread : ofText? (trim text.toList) with
  | none =>
    rw [hread] at h
    exact (Except.error.inj h).symm
  | some raw =>
    rw [hread] at h
    cases h

theorem exists_parse_eq_ok_iff :
    (∃ raw, parse text = .ok raw ∧ raw.toInt = k) ↔ Spelling (trim text.toList) k := by
  rw [← map_toInt_ofText?_eq_some_iff, Option.map_eq_some_iff]
  simp only [parse_eq_ok_iff]

theorem Spelling.exists_parse (h : Spelling s k) :
    ∃ raw, parse (.ofList s) = .ok raw ∧ raw.toInt = k := by
  rw [exists_parse_eq_ok_iff, String.toList_ofList, trim_eq_self h.not_isBlank]
  exact h

theorem spelling_decimal (hle : -2 ^ 63 ≤ k) (hlt : k < 2 ^ 64) : Spelling (Text.decimal k) k := by
  cases k with
  | ofNat n => exact .decimal (.inl rfl) (numeral_toDigits (by decide) n) (Int.ofNat_lt.mp hlt)
  | negSucc n =>
    have hvalue : Int.negSucc n = -((n + 1 : Nat) : Int) := rfl
    rw [hvalue] at hle ⊢
    exact .negative (numeral_toDigits (by decide) (n + 1)) (by omega)

theorem parse_addressText (v : UInt64) : parse (addressText v) = .ok (wire v) := by
  have hdigits := numeral_toDigits (by decide : 1 < 16) v.toNat
  have hplus : Plus [] := .inl rfl
  have hspelling : Spelling (hexadecimal v.toNat) v.toNat :=
    .hexadecimal (.inl rfl) hplus hdigits v.toNat_lt
  have hread : nat? 16 UInt64.size (Nat.toDigits 16 v.toNat) = some v.toNat :=
    (nat?_eq_some_iff (by decide)).mpr ⟨[], _, rfl, hplus, hdigits, v.toNat_lt_size⟩
  rw [parse_eq_ok_iff, addressText, String.toList_ofList,
    trim_eq_self hspelling.not_isBlank, hexadecimal, ofText?_hexadecimal (.inl rfl),
    hread, Option.map_some, UInt64.ofNat_toNat]

theorem exists_ofJson?_integer (hle : -2 ^ 63 ≤ k) (hlt : k < 2 ^ 64) :
    ∃ raw, ofJson? (.integer k) = some raw ∧ raw.toInt = k := by
  obtain ⟨raw, -, rfl⟩ := (spelling_decimal hle hlt).exists_parse
  exact ⟨raw.reread, raw.ofJson?_toJson, raw.toInt_reread⟩

theorem parse?_decimal (k : Int) : Json.parse? (.ofList (Text.decimal k)) = some (.integer k) := by
  have hnesting : (Json.integer k).nesting ≤ Json.maxNesting := by simp [Json.nesting]
  have h := Json.parse?_write Json.Layout.spaced_compact hnesting
  rwa [Json.write] at h

theorem parse?_compact_string (text : String) :
    Json.parse? (Json.string text).compact = some (.string text) := by
  have hnesting : (Json.string text).nesting ≤ Json.maxNesting := by simp [Json.nesting]
  exact Json.parse?_write Json.Layout.spaced_compact hnesting

end Parsing

/-- An offset is read from exactly its spellings, with blanks around them, and counts like the word of
the residue of the number that is spelled; what is refused is reported without the blanks. So the
decimal text of a number, the JSON number, the JSON string of that text and the address of its word are
one offset, and addresses are read back as words. -/
theorem spellings_agree :
    (∀ text : String,
      let s := trim text.toList
      ((∃ raw, parse text = .ok raw) ↔ ∃ k, Spelling s k) ∧
      (∀ raw k, parse text = .ok raw → Spelling s k →
        ∀ word, raw.normalize word = (wire (.ofInt k)).normalize word) ∧
      ∀ e, parse text = .error e → e = ⟨.ofList s⟩) ∧
    (∀ k : Int, -2 ^ 63 ≤ k → k < 2 ^ 64 → ∀ word,
      let text := String.ofList (Text.decimal k)
      let readJson (text : String) := (Json.parse? text).bind ofJson?
      let offset := (wire (.ofInt k)).normalize word
      (parse text).map (·.normalize word) = .ok offset ∧
      (readJson text).map (·.normalize word) = some offset ∧
      (readJson (Json.string text).compact).map (·.normalize word) = some offset ∧
      (parse (addressText (.ofInt k))).map (·.normalize word) = .ok offset) ∧
    ∀ v : UInt64, parse (addressText v) = .ok (wire v) := by
  refine ⟨?_, ?_, parse_addressText⟩
  · intro text s
    have hvalue (raw : RawOffset) (h : parse text = .ok raw) : Spelling s raw.toInt :=
      exists_parse_eq_ok_iff.mp ⟨raw, h, rfl⟩
    refine ⟨⟨?_, ?_⟩, ?_, fun e => parse_eq_error⟩
    · rintro ⟨raw, hraw⟩
      exact ⟨raw.toInt, hvalue raw hraw⟩
    · rintro ⟨k, hk⟩
      obtain ⟨raw, hraw, -⟩ := exists_parse_eq_ok_iff.mpr hk
      exact ⟨raw, hraw⟩
    · intro raw k hraw hk word
      obtain ⟨raw', hraw', rfl⟩ := exists_parse_eq_ok_iff.mpr hk
      obtain rfl := Except.ok.inj (hraw.symm.trans hraw')
      exact raw.normalize_eq_normalize_wire word
  · intro k hle hlt word text readJson offset
    have hoffset {raw : RawOffset} (h : raw.toInt = k) : raw.normalize word = offset := by
      subst h
      exact raw.normalize_eq_normalize_wire word
    obtain ⟨fromText, htext, hfromText⟩ := (spelling_decimal hle hlt).exists_parse
    obtain ⟨fromNumber, hnumber, hfromNumber⟩ := exists_ofJson?_integer hle hlt
    have hfromString : ofJson? (.string text) = some fromText := by
      rw [ofJson?, htext]
      rfl
    refine ⟨?_, ?_, ?_, ?_⟩
    · rw [htext]
      exact congrArg Except.ok (hoffset hfromText)
    · simp only [readJson, text, parse?_decimal, Option.bind_some, hnumber, Option.map_some,
        hoffset hfromNumber]
    · simp only [readJson, parse?_compact_string, Option.bind_some, hfromString, Option.map_some,
        hoffset hfromText]
    · rw [parse_addressText]
      rfl

/-- The least offset with zeros in front of it and blanks around it, a sign in front of hexadecimal
digits, and the greatest word. -/
theorem spellings_agree_extremes :
    let least := "\u00a0-009223372036854775808\n"
    Spelling (trim least.toList) (-2 ^ 63) ∧
    (∃ raw, parse least = .ok raw ∧
      ∀ word, raw.normalize word = (wire (.ofInt (-2 ^ 63))).normalize word) ∧
    (∃ e, parse " -0x1 " = .error e ∧ e.text = "-0x1") ∧
    ((Json.parse? "18446744073709551615").bind ofJson?).map (·.normalize .bits64) =
      some ((signed (-1)).normalize .bits64) := by
  intro least
  obtain ⟨htext, hnumber, -⟩ := spellings_agree
  obtain ⟨-, hvalue, -⟩ := htext least
  obtain ⟨-, -, herror⟩ := htext " -0x1 "
  have hdigits : digits? 10 "009223372036854775808".toList = some (2 ^ 63) := by decide +kernel
  have hspelling : Spelling (trim least.toList) (-2 ^ 63) := by
    have htrim : trim least.toList = '-' :: "009223372036854775808".toList := by decide +kernel
    rw [htrim]
    exact .negative ((digits?_eq_some_iff (by decide)).mp hdigits) (by decide)
  have hleast : parse least = .ok (signed (-2 ^ 63)) := parse_eq_ok_iff.mpr (by decide +kernel)
  have hrefused : parse " -0x1 " = .error ⟨"-0x1"⟩ := by rfl
  refine ⟨hspelling, ⟨_, hleast, hvalue _ _ hleast hspelling⟩, ⟨_, hrefused, ?_⟩, ?_⟩
  · rw [herror _ hrefused]
    decide +kernel
  · have hgreatest : String.ofList (Text.decimal (2 ^ 64 - 1)) = "18446744073709551615" := by
      decide +kernel
    obtain ⟨-, hread, -, -⟩ := hnumber (2 ^ 64 - 1) (by decide) (by decide) .bits64
    rw [← hgreatest]
    refine hread.trans ?_
    decide +kernel

end DecompConfig.RawOffset
