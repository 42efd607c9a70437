import DecompConfig.Frame.Offset
import Mathlib.Algebra.Ring.Int.Defs
import Mathlib.Algebra.Ring.Nat

namespace DecompConfig

namespace FrameOffset

/-- The difference of two offsets, unless it takes more than 128 bits. -/
def sub? (a b : FrameOffset) : Option FrameOffset := ofInt? (a.value - b.value)

theorem ext_value {a b : FrameOffset} (h : a.value = b.value) : a = b := by
  cases a
  cases b
  subst h
  rfl

theorem ofInt?_eq_some {n : Int} {a : FrameOffset} (h : a.value = n) : ofInt? n = some a := by
  subst h
  exact dif_pos a.inRange

theorem exists_ofInt?_eq_some {n : Int} (hle : -2 ^ 64 ≤ n) (hge : n ≤ 2 ^ 64) :
    ∃ a, ofInt? n = some a ∧ a.value = n := by
  have hgap : (2 : Int) ^ 64 < Int.pow 2 127 := by decide
  exact ⟨⟨n, by omega⟩, ofInt?_eq_some rfl, rfl⟩

theorem sub?_eq_some {a b c : FrameOffset} (h : c.value = a.value - b.value) :
    a.sub? b = some c :=
  ofInt?_eq_some h

end FrameOffset

namespace RawOffset

/-- The recovered offset as arithmetic of 128 bits comes to it, unless a number on the way does not
fit. -/
def checkedRecovered? : RawOffset → Option FrameOffset
  | signed v => FrameOffset.ofInt? v.toInt
  | wire v =>
    if v.toNat ≤ Int64.maxValue.toInt then FrameOffset.ofInt? v.toNat
    else do (← FrameOffset.ofInt? v.toNat).sub? (← FrameOffset.ofInt? (2 ^ 64))

/-- The normalized offset as arithmetic of 128 bits comes to it. -/
def checkedNormalize? (raw : RawOffset) (word : WordSize) : Option FrameOffset := do
  (← raw.checkedRecovered?).sub? (← FrameOffset.ofInt? word.bytes.toNat)

theorem recovered_bounds (raw : RawOffset) : -2 ^ 63 ≤ raw.recovered ∧ raw.recovered < 2 ^ 63 :=
  raw.recovered_inRange

theorem recovered_wire_of_lt {v : UInt64} (h : v.toNat < 2 ^ 63) :
    (wire v).recovered = v.toNat :=
  if_pos h

theorem recovered_wire_of_le {v : UInt64} (h : 2 ^ 63 ≤ v.toNat) :
    (wire v).recovered = v.toNat - 2 ^ 64 :=
  if_neg (Nat.not_lt.mpr h)

/-- An offset is recovered as it is written or less by the number of words. -/
theorem recovered_cases (raw : RawOffset) :
    raw.recovered = raw.toInt ∨ raw.recovered = raw.toInt - 2 ^ 64 := by
  cases raw with
  | signed v => exact .inl rfl
  | wire v =>
    rcases Nat.lt_or_ge v.toNat (2 ^ 63) with hlt | hge
    · exact .inl (recovered_wire_of_lt hlt)
    · exact .inr (recovered_wire_of_le hge)

/-- No two numbers of the range of signed words have the same residue. -/
theorem eq_recovered_iff (raw : RawOffset) (n : Int) :
    (-2 ^ 63 ≤ n ∧ n < 2 ^ 63 ∧ n % 2 ^ 64 = raw.toInt % 2 ^ 64) ↔ n = raw.recovered := by
  have hbounds := raw.recovered_bounds
  have hcases := raw.recovered_cases
  omega

theorem recovered_eq_of_emod_eq {raw raw' : RawOffset}
    (h : raw.toInt % 2 ^ 64 = raw'.toInt % 2 ^ 64) : raw.recovered = raw'.recovered := by
  have hbounds := raw.recovered_bounds
  have hcases := raw.recovered_cases
  apply (eq_recovered_iff raw' _).mp
  omega

theorem normalize_eq_iff {raw raw' : RawOffset} {word : WordSize} :
    raw.normalize word = raw'.normalize word ↔ raw.recovered = raw'.recovered := by
  constructor
  · intro h
    have hvalue : raw.recovered - word.bytes.toNat = raw'.recovered - word.bytes.toNat :=
      congrArg FrameOffset.value h
    omega
  · intro h
    apply FrameOffset.ext_value
    simp only [normalize, h]

theorem toInt_wire_ofInt (n : Int) : (wire (.ofInt n)).toInt = n % 2 ^ 64 := by
  have hnonneg : 0 ≤ n % 2 ^ 64 := Int.emod_nonneg n (by decide)
  have hlt : n % 2 ^ 64 < 2 ^ 64 := Int.emod_lt_of_pos n (by decide)
  rw [toInt, UInt64.ofInt, UInt64.toNat_ofNat']
  omega

/-- An offset is normalized as the word of the same residue is. -/
theorem normalize_eq_normalize_wire (raw : RawOffset) (word : WordSize) :
    raw.normalize word = (wire (.ofInt raw.toInt)).normalize word := by
  apply normalize_eq_iff.mpr
  apply recovered_eq_of_emod_eq
  rw [toInt_wire_ofInt, Int.emod_emod]

theorem normalize_wire_inj {v v' : UInt64} {word : WordSize} :
    (wire v).normalize word = (wire v').normalize word ↔ v = v' := by
  rw [normalize_eq_iff]
  constructor
  · intro h
    have hv : (v.toNat : Int) < 2 ^ 64 := Int.ofNat_lt.mpr v.toNat_lt
    have hv' : (v'.toNat : Int) < 2 ^ 64 := Int.ofNat_lt.mpr v'.toNat_lt
    have hcases : (wire v).recovered = v.toNat ∨ (wire v).recovered = v.toNat - 2 ^ 64 :=
      (wire v).recovered_cases
    have hcases' : (wire v').recovered = v'.toNat ∨ (wire v').recovered = v'.toNat - 2 ^ 64 :=
      (wire v').recovered_cases
    apply UInt64.toNat_inj.mp
    omega
  · rintro rfl
    rfl

theorem exists_checkedRecovered?_eq_some (raw : RawOffset) :
    ∃ a, raw.checkedRecovered? = some a ∧ a.value = raw.recovered := by
  have hbounds := raw.recovered_bounds
  cases raw with
  | signed v =>
    exact FrameOffset.exists_ofInt?_eq_some (n := (signed v).recovered) (by omega) (by omega)
  | wire v =>
    have hmax : Int64.maxValue.toInt = 2 ^ 63 - 1 := by decide
    have hlt : v.toNat < 2 ^ 64 := v.toNat_lt
    obtain ⟨value, hvalue, heq⟩ :=
      FrameOffset.exists_ofInt?_eq_some (n := v.toNat) (by omega) (by omega)
    obtain ⟨words, hwords, hcount⟩ :=
      FrameOffset.exists_ofInt?_eq_some (n := 2 ^ 64) (by omega) (by omega)
    obtain ⟨recovered, hrecovered, hresult⟩ :=
      FrameOffset.exists_ofInt?_eq_some (n := (wire v).recovered) (by omega) (by omega)
    rw [checkedRecovered?, hvalue, hwords]
    split
    next hle =>
      have hkept : (wire v).recovered = v.toNat := recovered_wire_of_lt (by omega)
      exact ⟨value, rfl, heq.trans hkept.symm⟩
    next hgt =>
      have hwrapped : (wire v).recovered = v.toNat - 2 ^ 64 := recovered_wire_of_le (by omega)
      refine ⟨recovered, FrameOffset.sub?_eq_some ?_, hresult⟩
      rw [hresult, hwrapped, heq, hcount]

theorem checkedNormalize?_eq_some (raw : RawOffset) (word : WordSize) :
    raw.checkedNormalize? word = some (raw.normalize word) := by
  have hbytes : word.bytes.toNat < 2 ^ 32 := word.bytes.toNat_lt
  obtain ⟨recovered, hrecovered, hvalue⟩ := raw.exists_checkedRecovered?_eq_some
  obtain ⟨bytes, hword, hcount⟩ :=
    FrameOffset.exists_ofInt?_eq_some (n := word.bytes.toNat) (by omega) (by omega)
  rw [checkedNormalize?, hrecovered, hword]
  apply FrameOffset.sub?_eq_some
  rw [hvalue, hcount]
  rfl

/-- The normalized offset lies one machine word below the only signed 64-bit number that is congruent
to the number as it is written. So a signed offset and the word that stands for it are normalized
alike, no two words are, and greater offsets stay greater. No number on the way leaves the range of
128 bits. -/
theorem normalize_exact (raw : RawOffset) (word : WordSize) :
    let offset := (raw.normalize word).value
    (∀ n : Int, (-2 ^ 63 ≤ n ∧ n < 2 ^ 63 ∧ n % 2 ^ 64 = raw.toInt % 2 ^ 64) ↔
      n = offset + word.bytes.toNat) ∧
    (∀ v : Int64, (wire (.ofInt v.toInt)).normalize word = (signed v).normalize word) ∧
    (∀ v v' : UInt64, (wire v).normalize word = (wire v').normalize word ↔ v = v') ∧
    (∀ raw' : RawOffset,
      raw.recovered ≤ raw'.recovered ↔ offset ≤ (raw'.normalize word).value) ∧
    raw.checkedNormalize? word = some (raw.normalize word) ∧
    -2 ^ 63 - (2 ^ 32 - 1) ≤ offset ∧ offset ≤ 2 ^ 63 - 1 := by
  intro offset
  have hoffset : offset = raw.recovered - word.bytes.toNat := rfl
  have hbounds := raw.recovered_bounds
  have hbytes : word.bytes.toNat < 2 ^ 32 := word.bytes.toNat_lt
  refine ⟨fun n => ?_, fun v => ((signed v).normalize_eq_normalize_wire word).symm,
    fun v v' => normalize_wire_inj, fun raw' => ?_, raw.checkedNormalize?_eq_some word, ?_, ?_⟩
  · have hunique := raw.eq_recovered_iff n
    omega
  · have hother : (raw'.normalize word).value = raw'.recovered - word.bytes.toNat := rfl
    omega
  · omega
  · omega

example : ((wire (.ofInt (-4))).normalize .bits64).value = -12 ∧
    ((wire (.ofInt (2 ^ 63))).normalize .bits64).value = -2 ^ 63 - 8 := by
  decide

end RawOffset

end DecompConfig
