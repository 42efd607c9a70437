import DecompConfig.NameMap
import Mathlib.Tactic.SplitIfs

namespace DecompConfig.Text

/-- The bytes of a text in UTF-8. -/
def utf8 (s : String) : List UInt8 := s.toUTF8.data.toList

theorem utf8_eq_flatMap (s : String) : utf8 s = s.toList.flatMap String.utf8EncodeChar := by
  have h : (String.ofList s.toList).toByteArray = s.toList.utf8Encode := String.toByteArray_ofList
  rw [String.ofList_toList] at h
  rw [utf8, String.toUTF8_eq_toByteArray, h, List.utf8Encode, List.data_toByteArray]

theorem toNat_val_lt (c : Char) : c.val.toNat < 0x110000 := by
  have h := c.valid
  simp only [UInt32.isValidChar, Nat.isValidChar] at h
  show c.val.toNat < _
  omega

theorem lt_digits {v w : Nat} (h : v < w) : v / 64 < w / 64 ∨ v / 64 = w / 64 ∧ v % 64 < w % 64 := by
  omega

/-- The greater character has the greater bytes, whatever follows the two. -/
theorem utf8EncodeChar_append_lt {c d : Char} (h : c < d) (s t : List UInt8) :
    String.utf8EncodeChar c ++ s < String.utf8EncodeChar d ++ t := by
  have hc := toNat_val_lt c
  have hd := toNat_val_lt d
  have h : c.val.toNat < d.val.toNat := UInt32.lt_iff_toNat_lt.mp (Char.lt_def.mp h)
  unfold String.utf8EncodeChar
  generalize c.val.toNat = v at hc h ⊢
  generalize d.val.toNat = w at hd h ⊢
  dsimp only
  by_cases hv : v ≤ 0xffff
  · split_ifs <;>
      simp only [List.cons_append, List.nil_append, List.cons_lt_cons_iff, UInt8.lt_iff_toNat_lt,
        ← UInt8.toNat_inj, UInt8.toNat_ofNat'] <;>
      omega
  · -- Both characters have four bytes, and the first digit in which they differ decides.
    have hthird : v / 4096 = v / 64 / 64 ∧ w / 4096 = w / 64 / 64 := by omega
    have hfourth : v / 262144 = v / 64 / 64 / 64 ∧ w / 262144 = w / 64 / 64 / 64 := by omega
    rw [if_neg (by omega), if_neg (by omega), if_neg hv, if_neg (by omega), if_neg (by omega),
      if_neg (by omega)]
    simp only [List.cons_append, List.nil_append, List.cons_lt_cons_iff, UInt8.lt_iff_toNat_lt,
      ← UInt8.toNat_inj, UInt8.toNat_ofNat', hthird, hfourth]
    rcases lt_digits h with h | ⟨heq, h⟩
    · rcases lt_digits h with h | ⟨heq, h⟩
      · rcases lt_digits h with h | ⟨heq, h⟩
        · left
          omega
        · rw [heq]
          refine .inr ⟨rfl, .inl ?_⟩
          omega
      · rw [heq]
        refine .inr ⟨rfl, .inr ⟨rfl, .inl ?_⟩⟩
        omega
    · rw [heq]
      refine .inr ⟨rfl, .inr ⟨rfl, .inr ⟨rfl, .inl ?_⟩⟩⟩
      omega

theorem flatMap_utf8EncodeChar_lt {s t : List Char} (h : s < t) :
    s.flatMap String.utf8EncodeChar < t.flatMap String.utf8EncodeChar := by
  induction s generalizing t with
  | nil =>
    cases t with
    | nil => exact absurd h (List.lt_irrefl _)
    | cons d t =>
      obtain ⟨byte, more, hbytes⟩ := List.exists_cons_of_ne_nil (String.utf8EncodeChar_ne_nil (c := d))
      rw [List.flatMap_nil, List.flatMap_cons, hbytes]
      exact List.nil_lt_cons _ _
  | cons c s ih =>
    cases t with
    | nil => exact absurd h (List.not_lt_nil _)
    | cons d t =>
      rw [List.flatMap_cons, List.flatMap_cons]
      rcases List.cons_lt_cons_iff.mp h with hlt | ⟨rfl, hlt⟩
      · exact utf8EncodeChar_append_lt hlt _ _
      · exact List.append_left_lt (ih hlt)

/-- Texts are ordered as their bytes are. -/
theorem utf8_lt_utf8_iff {s t : String} : utf8 s < utf8 t ↔ s < t := by
  have hmono {s t : String} (h : s < t) : utf8 s < utf8 t := by
    rw [utf8_eq_flatMap, utf8_eq_flatMap]
    exact flatMap_utf8EncodeChar_lt h
  refine ⟨fun h => ?_, hmono⟩
  apply Decidable.byContradiction
  intro hnot
  by_cases heq : s = t
  · exact List.lt_irrefl _ (heq ▸ h)
  · exact List.lt_asymm h (hmono (NameMap.lt_of_not_lt_of_ne hnot heq))

end DecompConfig.Text
