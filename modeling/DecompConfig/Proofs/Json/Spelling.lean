import DecompConfig.Proofs.Json.Reading
import DecompConfig.Proofs.Text.ByteOrder
import DecompConfig.Proofs.Text.Number

/-!
The texts of lexemes, as a grammar: escapes, surrogate pairs and the blanks between lexemes. Main
statement: the texts that are cut into marks and strings are those of the grammar.
-/

namespace DecompConfig.Json

/-- The letters of the escapes with one letter, each with its character. -/
def escapes : List (Char × Char) :=
  [('"', '"'), ('\\', '\\'), ('/', '/'), ('b', '\x08'), ('f', '\x0c'), ('n', '\n'), ('r', '\r'),
    ('t', '\t')]

/-- The text between the quotes of a string, with the code points and the escaped code units in it. -/
inductive StringText : List Char → List Nat → Prop
  | nil : StringText [] []
  | plain {c : Char} {s : List Char} {units : List Nat} (hcontrol : ' ' ≤ c) (hquote : c ≠ '"')
      (hbackslash : c ≠ '\\') (hs : StringText s units) : StringText (c :: s) (c.toNat :: units)
  | letter {l c : Char} {s : List Char} {units : List Nat} (hl : (l, c) ∈ escapes)
      (hs : StringText s units) : StringText ('\\' :: l :: s) (c.toNat :: units)
  | unit {digits s : List Char} {unit : Nat} {units : List Nat} (hlength : digits.length = 4)
      (hdigits : Text.Numeral 16 digits unit) (hs : StringText s units) :
      StringText ('\\' :: 'u' :: (digits ++ s)) (unit :: units)

/-- Characters as code points, of which those of more than 16 bits may also stand as surrogate pairs. -/
inductive Units : List Nat → List Char → Prop
  | nil : Units [] []
  | point {c : Char} {units : List Nat} {s : List Char} (hs : Units units s) :
      Units (c.toNat :: units) (c :: s)
  | pair {c : Char} {units : List Nat} {s : List Char} (hc : 0x10000 ≤ c.toNat) (hs : Units units s) :
      Units ((0xd800 + (c.toNat - 0x10000) / 0x400) :: (0xdc00 + (c.toNat - 0x10000) % 0x400) :: units)
        (c :: s)

/-- The lexeme is a mark or a string of whole characters. -/
def Lexeme.IsPlain : Lexeme → Prop
  | scalar _ | string none => False
  | _ => True

/-- The texts of the marks and of the strings that hold whole characters only. -/
inductive Lexeme.Written : Lexeme → List Char → Prop
  | openArray : Written openArray ['[']
  | closeArray : Written closeArray [']']
  | openObject : Written openObject ['{']
  | closeObject : Written closeObject ['}']
  | comma : Written comma [',']
  | colon : Written colon [':']
  | string {s : String} {body : List Char} {units : List Nat} (hbody : StringText body units)
      (hs : Units units s.toList) : Written (string (some s)) ('"' :: (body ++ ['"']))

/-- A text of marks and strings with any blanks around them. -/
inductive Cut : List Char → List Lexeme → Prop
  | nil {spaces : List Char} (hspaces : ∀ c ∈ spaces, isSpace c = true) : Cut spaces []
  | cons {spaces t s : List Char} {x : Lexeme} {xs : List Lexeme}
      (hspaces : ∀ c ∈ spaces, isSpace c = true) (hx : x.Written t) (hs : Cut s xs) :
      Cut (spaces ++ (t ++ s)) (x :: xs)

section Strings

variable {s t rest body : List Char} {units : List Nat}

theorem escaped?_eq_some_iff {l c : Char} : escaped? l = some c ↔ (l, c) ∈ escapes := by
  unfold escaped? escapes
  split <;> simp_all [eq_comm]

theorem codeUnit?_eq_some_iff {a b c d : Char} {unit : Nat} :
    codeUnit? a b c d = some unit ↔ Text.Numeral 16 [a, b, c, d] unit :=
  Text.digits?_eq_some_iff (s := [a, b, c, d]) (by decide)

theorem stringUnits?_unit {digits : List Char} {unit : Nat} (hlength : digits.length = 4)
    (hdigits : Text.Numeral 16 digits unit) (s : List Char) :
    stringUnits? ('\\' :: 'u' :: (digits ++ s)) =
      (stringUnits? s).map fun units => (unit :: units.1, units.2) := by
  match digits, hlength with
  | [a, b, c, d], _ =>
    have hunit := codeUnit?_eq_some_iff.mpr hdigits
    simp only [List.cons_append, List.nil_append, stringUnits?, hunit]
    cases stringUnits? s <;> rfl

theorem stringUnits?_letter {l c : Char} (hl : (l, c) ∈ escapes) (s : List Char) :
    stringUnits? ('\\' :: l :: s) = (stringUnits? s).map fun units => (c.toNat :: units.1, units.2) := by
  have hescaped := escaped?_eq_some_iff.mpr hl
  have hnot : l ≠ 'u' := by
    rintro rfl
    simp [escapes] at hl
  rw [stringUnits?, hescaped]
  · cases stringUnits? s <;> rfl
  · simpa using fun _ _ _ _ _ h => absurd h hnot

theorem StringText.stringUnits? (h : StringText body units) (rest : List Char) :
    stringUnits? (body ++ '"' :: rest) = some (units, rest) := by
  induction h with
  | nil => rfl
  | plain hcontrol hquote hbackslash hs ih =>
    rw [List.cons_append, stringUnits?_plain hcontrol hquote hbackslash, ih]
    rfl
  | letter hl hs ih =>
    rw [List.cons_append, List.cons_append, stringUnits?_letter hl, ih]
    rfl
  | unit hlength hdigits hs ih =>
    rw [List.cons_append, List.cons_append, List.append_assoc, stringUnits?_unit hlength hdigits, ih]
    rfl

theorem exists_stringText (h : stringUnits? s = some (units, rest)) :
    ∃ body, s = body ++ '"' :: rest ∧ StringText body units := by
  fun_induction Json.stringUnits? s generalizing units rest with
  | case1 => cases h
  | case2 tail =>
    obtain ⟨rfl, rfl⟩ := Prod.mk.inj (Option.some.inj h)
    exact ⟨[], rfl, .nil⟩
  | case3 a b c d tail ih =>
    obtain ⟨unit, hunit, h⟩ := Option.bind_eq_some_iff.mp h
    obtain ⟨⟨units', rest'⟩, htail, h⟩ := Option.bind_eq_some_iff.mp h
    obtain ⟨rfl, rfl⟩ := Prod.mk.inj (Option.some.inj h)
    obtain ⟨body, rfl, hbody⟩ := ih htail
    exact ⟨_, rfl, .unit rfl (codeUnit?_eq_some_iff.mp hunit) hbody⟩
  | case4 l tail _ ih =>
    obtain ⟨c, hc, h⟩ := Option.bind_eq_some_iff.mp h
    obtain ⟨⟨units', rest'⟩, htail, h⟩ := Option.bind_eq_some_iff.mp h
    obtain ⟨rfl, rfl⟩ := Prod.mk.inj (Option.some.inj h)
    obtain ⟨body, rfl, hbody⟩ := ih htail
    exact ⟨_, rfl, .letter (escaped?_eq_some_iff.mp hc) hbody⟩
  | case5 => cases h
  | case6 c tail hquote _ hbackslash hcontrol ih =>
    obtain ⟨⟨units', rest'⟩, htail, h⟩ := Option.bind_eq_some_iff.mp h
    obtain ⟨rfl, rfl⟩ := Prod.mk.inj (Option.some.inj h)
    obtain ⟨body, rfl, hbody⟩ := ih htail
    -- A backslash is followed by a character, since the string ends behind it.
    have hnot : c ≠ '\\' := by
      rintro rfl
      cases body with
      | nil => exact hbackslash _ _ rfl rfl
      | cons d body => exact hbackslash _ _ rfl rfl
    exact ⟨c :: body, rfl, .plain (Char.not_lt.mp hcontrol) hquote hnot hbody⟩

/-- A text is read up to the first quote that is not escaped. -/
theorem stringUnits?_eq_some_iff :
    stringUnits? s = some (units, rest) ↔ ∃ body, s = body ++ '"' :: rest ∧ StringText body units := by
  constructor
  · exact exists_stringText
  · rintro ⟨body, rfl, h⟩
    exact h.stringUnits? rest

/-- What stands in a text is at most the greatest code point. -/
theorem StringText.lt_of_mem (h : StringText body units) : ∀ unit ∈ units, unit < 0x110000 := by
  induction h with
  | nil => simp
  | plain _ _ _ _ ih => exact List.forall_mem_cons.mpr ⟨Text.toNat_val_lt _, ih⟩
  | letter _ _ ih => exact List.forall_mem_cons.mpr ⟨Text.toNat_val_lt _, ih⟩
  | unit hlength hdigits _ ih =>
    have hunit := hdigits.lt_pow_length (by decide)
    rw [hlength] at hunit
    exact List.forall_mem_cons.mpr ⟨Nat.lt_trans hunit (by decide), ih⟩

theorem decodeUnits?_pair {c : Char} (hc : 0x10000 ≤ c.toNat) (units : List Nat) :
    decodeUnits? ((0xd800 + (c.toNat - 0x10000) / 0x400) ::
      (0xdc00 + (c.toNat - 0x10000) % 0x400) :: units) = (decodeUnits? units).map (c :: ·) := by
  have hvalid : c.toNat < 0xd800 ∨ 0xdfff < c.toNat ∧ c.toNat < 0x110000 := c.valid
  have hhigh : isHighSurrogate (0xd800 + (c.toNat - 0x10000) / 0x400) = true := by
    simp only [isHighSurrogate, Bool.and_eq_true, decide_eq_true_eq]
    omega
  have hlow : isLowSurrogate (0xdc00 + (c.toNat - 0x10000) % 0x400) = true := by
    simp only [isLowSurrogate, Bool.and_eq_true, decide_eq_true_eq]
    omega
  have hvalue : 0x10000 + (0xd800 + (c.toNat - 0x10000) / 0x400 - 0xd800) * 0x400 +
      (0xdc00 + (c.toNat - 0x10000) % 0x400 - 0xdc00) = c.toNat := by
    omega
  rw [decodeUnits?, if_pos hhigh, if_pos hlow, hvalue, Char.ofNat_toNat]
  cases decodeUnits? units <;> rfl

theorem Units.decodeUnits? {cs : List Char} (h : Units units cs) : decodeUnits? units = some cs := by
  induction h with
  | nil => rfl
  | point hs ih => rw [decodeUnits?_point, ih, Option.map_some]
  | pair hc hs ih => rw [decodeUnits?_pair hc, ih, Option.map_some]

theorem toNat_ofNat_of_valid {n : Nat} (h : n < 0xd800 ∨ 0xdfff < n ∧ n < 0x110000) :
    (Char.ofNat n).toNat = n := by
  rw [Char.ofNat, dif_pos h]
  rfl

theorem toNat_ofNat_of_not_surrogate {unit : Nat} (hhigh : isHighSurrogate unit = false)
    (hlow : isLowSurrogate unit = false) (hbound : unit < 0x110000) :
    (Char.ofNat unit).toNat = unit := by
  simp only [isHighSurrogate, isLowSurrogate, Bool.and_eq_false_iff, decide_eq_false_iff_not]
    at hhigh hlow
  exact toNat_ofNat_of_valid (by omega)

theorem units_of_decodeUnits? {cs : List Char} (hbound : ∀ unit ∈ units, unit < 0x110000)
    (h : decodeUnits? units = some cs) : Units units cs := by
  fun_induction Json.decodeUnits? units generalizing cs with
  | case1 =>
    cases h
    exact .nil
  | case2 => cases h
  | case3 unit hsurrogate =>
    simp only [Bool.or_eq_true, not_or, Bool.not_eq_true] at hsurrogate
    obtain rfl := Option.some.inj h
    have hunit := toNat_ofNat_of_not_surrogate hsurrogate.1 hsurrogate.2 (hbound unit (by simp))
    have hpoint := Units.point (c := .ofNat unit) .nil
    rwa [hunit] at hpoint
  | case4 high low rest hhigh hlow ih =>
    obtain ⟨cs, hrest, h⟩ := Option.bind_eq_some_iff.mp h
    obtain rfl := Option.some.inj h
    simp only [isHighSurrogate, isLowSurrogate, Bool.and_eq_true, decide_eq_true_eq] at hhigh hlow
    generalize hpoint : 0x10000 + (high - 0xd800) * 0x400 + (low - 0xdc00) = point
    have hc : (Char.ofNat point).toNat = point := toNat_ofNat_of_valid (by omega)
    have hpair := Units.pair (c := .ofNat point) (by omega)
      (ih (fun unit hunit => hbound unit (by simp [hunit])) hrest)
    have hhigh' : 0xd800 + (point - 0x10000) / 0x400 = high := by omega
    have hlow' : 0xdc00 + (point - 0x10000) % 0x400 = low := by omega
    rwa [hc, hhigh', hlow'] at hpair
  | case5 => cases h
  | case6 => cases h
  | case7 unit next rest hhigh hlow ih =>
    obtain ⟨cs, hrest, h⟩ := Option.bind_eq_some_iff.mp h
    obtain rfl := Option.some.inj h
    have hunit := toNat_ofNat_of_not_surrogate (Bool.eq_false_of_not_eq_true hhigh)
      (Bool.eq_false_of_not_eq_true hlow) (hbound unit (by simp))
    have hpoint := Units.point (c := .ofNat unit)
      (ih (fun other hother => hbound other (List.mem_cons_of_mem _ hother)) hrest)
    rwa [hunit] at hpoint

end Strings

section Lexemes

variable {s t rest : List Char} {x : Lexeme} {xs : List Lexeme}

theorem Lexeme.Written.first? (h : x.Written t) (rest : List Char) :
    Lexeme.first? (t ++ rest) = some (x, rest) := by
  cases h with
  | string hbody hs =>
    have hunits := hbody.stringUnits? rest
    have hdecode := hs.decodeUnits?
    simp only [List.cons_append, List.append_assoc, List.nil_append, Lexeme.first?, hunits,
      Option.bind_eq_bind, Option.bind_some, hdecode, Option.map_some, String.ofList_toList]
    rfl
  | _ => rfl

theorem Lexeme.Written.not_isSpace (h : x.Written t) :
    ∃ c cs, t = c :: cs ∧ isSpace c = false := by
  cases h <;> exact ⟨_, _, rfl, rfl⟩

theorem exists_written (hx : x.IsPlain) (h : Lexeme.first? s = some (x, rest)) :
    ∃ t, s = t ++ rest ∧ x.Written t := by
  unfold Lexeme.first? at h
  split at h
  case h_10 tail =>
    obtain ⟨⟨units, tail⟩, hunits, h⟩ := Option.bind_eq_some_iff.mp h
    obtain ⟨rfl, rfl⟩ := Prod.mk.inj (Option.some.inj h)
    obtain ⟨body, rfl, hbody⟩ := stringUnits?_eq_some_iff.mp hunits
    cases hdecode : decodeUnits? units with
    | none =>
      rw [hdecode] at hx
      exact hx.elim
    | some cs =>
      have hunits := units_of_decodeUnits? hbody.lt_of_mem hdecode
      refine ⟨'"' :: (body ++ ['"']), by simp, ?_⟩
      exact .string hbody (by rwa [String.toList_ofList])
  case h_11 =>
    obtain ⟨⟨j, tail⟩, -, h⟩ := Option.bind_eq_some_iff.mp h
    obtain ⟨rfl, rfl⟩ := Prod.mk.inj (Option.some.inj h)
    exact hx.elim
  all_goals obtain ⟨rfl, rfl⟩ := Prod.mk.inj (Option.some.inj h)
  case h_1 => exact ⟨['['], rfl, .openArray⟩
  case h_2 => exact ⟨[']'], rfl, .closeArray⟩
  case h_3 => exact ⟨['{'], rfl, .openObject⟩
  case h_4 => exact ⟨['}'], rfl, .closeObject⟩
  case h_5 => exact ⟨[','], rfl, .comma⟩
  case h_6 => exact ⟨[':'], rfl, .colon⟩
  all_goals exact hx.elim

theorem Cut.lexemes? (h : Cut s xs) : lexemes? s = some xs := by
  induction h with
  | nil hspaces =>
    have hnil := lexemes?_spaces hspaces []
    rwa [List.append_nil, lexemes?_nil] at hnil
  | @cons spaces t s x xs hspaces hx hs ih =>
    have hfirst := hx.first? s
    obtain ⟨c, cs, rfl, hc⟩ := hx.not_isSpace
    rw [List.cons_append] at hfirst
    rw [lexemes?_spaces hspaces, List.cons_append, lexemes?_of_first? hfirst hc, ih, Option.map_some]

/-- The value of a scalar is written with this scalar alone. -/
def Lexeme.IsAtom : Lexeme → Prop
  | scalar j => j.toLexemes = [scalar j]
  | _ => True

theorem isAtom_of_first? (h : Lexeme.first? s = some (x, rest)) : x.IsAtom := by
  unfold Lexeme.first? at h
  split at h
  case h_10 =>
    obtain ⟨_, -, h⟩ := Option.bind_eq_some_iff.mp h
    obtain ⟨rfl, rfl⟩ := Prod.mk.inj (Option.some.inj h)
    trivial
  case h_11 =>
    obtain ⟨⟨j, tail⟩, hnumber, h⟩ := Option.bind_eq_some_iff.mp h
    obtain ⟨rfl, rfl⟩ := Prod.mk.inj (Option.some.inj h)
    obtain ⟨⟨whole, _⟩, -, hnumber⟩ := Option.bind_eq_some_iff.mp hnumber
    obtain ⟨⟨fraction, _⟩, -, hnumber⟩ := Option.bind_eq_some_iff.mp hnumber
    obtain ⟨⟨e, _⟩, -, hnumber⟩ := Option.bind_eq_some_iff.mp hnumber
    obtain ⟨rfl, rfl⟩ := Prod.mk.inj (Option.some.inj hnumber)
    unfold numberOf
    split
    · split
      · split <;> rfl
      · rfl
    · rfl
  all_goals
    obtain ⟨rfl, rfl⟩ := Prod.mk.inj (Option.some.inj h)
    trivial

theorem isAtom_of_lexemes? (h : lexemes? s = some xs) : ∀ x ∈ xs, x.IsAtom := by
  induction xs generalizing s with
  | nil => simp
  | cons x xs ih =>
    rw [lexemes?_eq] at h
    split at h
    next => cases h
    next =>
      obtain ⟨⟨y, tail⟩, hfirst, h⟩ := Option.bind_eq_some_iff.mp h
      obtain ⟨ys, htail, h⟩ := Option.map_eq_some_iff.mp h
      obtain ⟨rfl, rfl⟩ := List.cons.inj h
      exact List.forall_mem_cons.mpr ⟨isAtom_of_first? hfirst, ih htail⟩

theorem cut_of_lexemes? (hxs : ∀ x ∈ xs, x.IsPlain) (h : lexemes? s = some xs) : Cut s xs := by
  induction xs generalizing s with
  | nil =>
    rw [lexemes?_eq] at h
    split at h
    next hdrop => exact .nil (List.dropWhile_eq_nil_iff.mp hdrop)
    next =>
      obtain ⟨first, -, h⟩ := Option.bind_eq_some_iff.mp h
      obtain ⟨_, -, h⟩ := Option.map_eq_some_iff.mp h
      cases h
  | cons x xs ih =>
    rw [lexemes?_eq] at h
    split at h
    next => cases h
    next c rest hdrop =>
      obtain ⟨⟨y, tail⟩, hfirst, h⟩ := Option.bind_eq_some_iff.mp h
      obtain ⟨ys, htail, h⟩ := Option.map_eq_some_iff.mp h
      obtain ⟨rfl, rfl⟩ := List.cons.inj h
      obtain ⟨hx, hys⟩ := List.forall_mem_cons.mp hxs
      obtain ⟨t, hfront, ht⟩ := exists_written hx hfirst
      have hs : s = s.takeWhile isSpace ++ (t ++ tail) := by
        rw [← hfront, ← hdrop, List.takeWhile_append_dropWhile]
      rw [hs]
      exact .cons (fun _ => List.mem_takeWhile_imp) ht (ih hys htail)

/-- A text is cut into marks and strings in one way. -/
theorem lexemes?_eq_some_iff_cut (hxs : ∀ x ∈ xs, x.IsPlain) : lexemes? s = some xs ↔ Cut s xs :=
  ⟨cut_of_lexemes? hxs, Cut.lexemes?⟩

end Lexemes

section Containers

theorem isPlain_itemLexemes {items : List Json} (h : ∀ j ∈ items, ∀ x ∈ j.toLexemes, x.IsPlain) :
    ∀ x ∈ itemLexemes items, x.IsPlain := by
  induction items with
  | nil => simp [itemLexemes]
  | cons j items ih =>
    obtain ⟨hj, hitems⟩ := List.forall_mem_cons.mp h
    simp only [itemLexemes, List.forall_mem_cons, List.forall_mem_append]
    exact ⟨trivial, hj, ih hitems⟩

theorem isPlain_fieldLexemes {fields : List (String × Json)}
    (h : ∀ field ∈ fields, ∀ x ∈ field.2.toLexemes, x.IsPlain) :
    ∀ x ∈ fieldLexemes fields, x.IsPlain := by
  induction fields with
  | nil => simp [fieldLexemes]
  | cons field fields ih =>
    obtain ⟨hj, hfields⟩ := List.forall_mem_cons.mp h
    simp only [fieldLexemes, List.forall_mem_cons, List.forall_mem_append]
    exact ⟨trivial, trivial, trivial, hj, ih hfields⟩

/-- A container of values without scalars is written in marks and strings. -/
theorem isPlain_array {items : List Json} (h : ∀ j ∈ items, ∀ x ∈ j.toLexemes, x.IsPlain) :
    ∀ x ∈ (array items).toLexemes, x.IsPlain := by
  cases items with
  | nil => simp [toLexemes, Lexeme.IsPlain]
  | cons j items =>
    obtain ⟨hj, hitems⟩ := List.forall_mem_cons.mp h
    simp only [toLexemes, List.forall_mem_cons, List.forall_mem_append]
    exact ⟨trivial, hj, isPlain_itemLexemes hitems, trivial, by simp⟩

theorem isPlain_object {fields : List (String × Json)}
    (h : ∀ field ∈ fields, ∀ x ∈ field.2.toLexemes, x.IsPlain) :
    ∀ x ∈ (object fields).toLexemes, x.IsPlain := by
  cases fields with
  | nil => simp [toLexemes, Lexeme.IsPlain]
  | cons field fields =>
    obtain ⟨hj, hfields⟩ := List.forall_mem_cons.mp h
    simp only [toLexemes, List.forall_mem_cons, List.forall_mem_append]
    exact ⟨trivial, trivial, trivial, hj, isPlain_fieldLexemes hfields, trivial, by simp⟩

end Containers

end DecompConfig.Json
