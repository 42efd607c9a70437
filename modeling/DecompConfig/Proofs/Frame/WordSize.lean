import DecompConfig.Frame.Json
import DecompConfig.Proofs.Json.Record
import Mathlib.Algebra.Ring.Nat

namespace DecompConfig.WordSize

/-- What a word size is obtained from. -/
inductive Origin where
  | bytes (count : UInt32)
  | width (bits : UInt32)
  /-- A width in decimal. -/
  | widthText (text : String)
  | json (text : String)

namespace Origin

def word? : Origin → Option WordSize
  | bytes count => ofBytes? count
  | width bits => ofBits? bits
  | widthText text => ofBitsText? text
  | json text => (Json.parse? text).bind ofJson?

def isWidth : Origin → Bool
  | width _ | widthText _ => true
  | bytes _ | json _ => false

end Origin

/-- The word has a byte, and a width of 32 bits that it is found by again. -/
structure IsMachineWord (word : WordSize) : Prop where
  bytes_pos : 0 < word.bytes
  exists_width : ∃ bits, word.bits? = some bits ∧ bits.toNat = 8 * word.bytes.toNat ∧
    ofBits? bits = some word

section Width

variable {word : WordSize} {bits count : UInt32}

theorem ofBytes?_eq_some_iff : ofBytes? count = some word ↔ 0 < word.bytes ∧ word.bytes = count := by
  rw [ofBytes?]
  constructor
  · intro h
    split at h
    next hpos =>
      obtain rfl := Option.some.inj h
      exact ⟨hpos, rfl⟩
    next => cases h
  · rintro ⟨hpos, rfl⟩
    exact if_pos hpos

theorem bits?_eq_some_iff : word.bits? = some bits ↔ bits.toNat = 8 * word.bytes.toNat := by
  have hsize : UInt32.size = 2 ^ 32 := rfl
  have hbits : bits.toNat < 2 ^ 32 := bits.toNat_lt
  have hproduct : (word.bytes * 8).toNat = word.bytes.toNat * 8 % 2 ^ 32 := UInt32.toNat_mul _ _
  rw [bits?]
  constructor
  · intro h
    split at h
    next hfits =>
      obtain rfl := Option.some.inj h
      omega
    next => cases h
  · intro h
    rw [if_pos (by omega)]
    exact congrArg some (UInt32.toNat_inj.mp (by omega))

theorem bits?_eq_none_iff : word.bits? = none ↔ 2 ^ 29 ≤ word.bytes.toNat := by
  have hsize : UInt32.size = 2 ^ 32 := rfl
  rw [bits?]
  split
  next hfits => exact ⟨nofun, fun hle => absurd hfits (by omega)⟩
  next hlarge => exact ⟨fun _ => by omega, fun _ => rfl⟩

theorem ofBits?_eq_some_iff :
    ofBits? bits = some word ↔ 0 < word.bytes ∧ word.bits? = some bits := by
  have hmod : (bits % 8).toNat = bits.toNat % 8 := UInt32.toNat_mod _ _
  have hdiv : (bits / 8).toNat = bits.toNat / 8 := UInt32.toNat_div _ _
  have hzero : bits % 8 = 0 ↔ bits.toNat % 8 = 0 := by
    rw [← hmod, ← UInt32.toNat_inj]
    rfl
  rw [ofBits?, bits?_eq_some_iff]
  constructor
  · intro h
    split at h
    next hwhole =>
      obtain ⟨hpos, hbytes⟩ := ofBytes?_eq_some_iff.mp h
      have hwhole := hzero.mp hwhole
      have hvalue := congrArg UInt32.toNat hbytes
      exact ⟨hpos, by omega⟩
    next => cases h
  · rintro ⟨hpos, hbits⟩
    rw [if_pos (hzero.mpr (by omega))]
    exact ofBytes?_eq_some_iff.mpr ⟨hpos, UInt32.toNat_inj.mp (by omega)⟩

theorem isMachineWord_of_ofBits? (h : ofBits? bits = some word) : word.IsMachineWord := by
  obtain ⟨hpos, hwidth⟩ := ofBits?_eq_some_iff.mp h
  exact ⟨hpos, bits, hwidth, bits?_eq_some_iff.mp hwidth, h⟩

/-- Every positive word whose width fits is a machine word. -/
theorem isMachineWord_iff : word.IsMachineWord ↔ 0 < word.bytes ∧ word.bytes.toNat < 2 ^ 29 := by
  constructor
  · rintro ⟨hpos, bits, -, hbits, -⟩
    have hlt : bits.toNat < 2 ^ 32 := bits.toNat_lt
    exact ⟨hpos, by omega⟩
  · rintro ⟨hpos, hlt⟩
    cases hwidth : word.bits? with
    | none =>
      have hle := bits?_eq_none_iff.mp hwidth
      omega
    | some bits => exact isMachineWord_of_ofBits? (ofBits?_eq_some_iff.mpr ⟨hpos, hwidth⟩)

end Width

section Reading

variable {word : WordSize} {j : Json} {text : String}

theorem ofJson?_eq_some_iff : ofJson? j = some word ↔ j = .integer word.bytes.toNat := by
  have hlt : word.bytes.toNat < UInt32.size := word.bytes.toNat_lt_size
  simp only [ofJson?, Json.uint32?, Option.map_map, Option.map_eq_some_iff, Json.below?_eq_some_iff]
  constructor
  · rintro ⟨n, ⟨rfl, hn⟩, rfl⟩
    have hvalue : (UInt32.ofNat n).toNat = n := UInt32.toNat_ofNat_of_lt' hn
    exact congrArg (fun m : Nat => Json.integer m) hvalue.symm
  · rintro rfl
    exact ⟨_, ⟨rfl, hlt⟩, congrArg mk UInt32.ofNat_toNat⟩

theorem json_word?_eq_some_iff : (Origin.json text).word? = some word ↔
    Json.parse? text = some (.integer word.bytes.toNat) := by
  rw [Origin.word?, Option.bind_eq_some_iff]
  simp only [ofJson?_eq_some_iff, exists_eq_right]

theorem json_word?_toJson (word : WordSize) : (Origin.json word.toJson.compact).word? = some word := by
  have hnesting : word.toJson.nesting ≤ Json.maxNesting := by simp [toJson, Json.nesting]
  exact json_word?_eq_some_iff.mpr (Json.parse?_write Json.Layout.spaced_compact hnesting)

/-- A width, be it a number or its decimal text, gives machine words only. -/
theorem isMachineWord_of_isWidth {origin : Origin} (h : origin.word? = some word)
    (hwidth : origin.isWidth = true) : word.IsMachineWord := by
  cases origin with
  | width bits => exact isMachineWord_of_ofBits? h
  | widthText text =>
    obtain ⟨n, -, hbits⟩ := Option.bind_eq_some_iff.mp h
    exact isMachineWord_of_ofBits? hbits
  | _ => cases hwidth

/-- Only the JSON number zero gives a word without a byte. -/
theorem json_zero_of_bytes_eq_zero {origin : Origin} (h : origin.word? = some word)
    (hzero : word.bytes = 0) :
    ∃ text, origin = .json text ∧ Json.parse? text = some (.integer 0) := by
  have hnot : ¬0 < word.bytes := by simp [hzero]
  cases origin with
  | bytes count => exact absurd (ofBytes?_eq_some_iff.mp h).1 hnot
  | json text =>
    have hparse := json_word?_eq_some_iff.mp h
    rw [hzero] at hparse
    exact ⟨text, rfl, hparse⟩
  | _ => exact absurd (isMachineWord_of_isWidth h rfl).bytes_pos hnot

end Reading

/-- A word size is a machine word unless its width takes more than 32 bits or it is read from the JSON
number zero. So those of a given width are machine words, and each is the word size of its own width and
of no other. A number of bytes is checked to be positive, and JSON not at all: every word size is read
as it is written. -/
theorem obtained_exact {origin : Origin} {word : WordSize} (h : origin.word? = some word) :
    (word.IsMachineWord ↔ word.bytes.toNat < 2 ^ 29 ∧
      ¬∃ text, origin = .json text ∧ Json.parse? text = some (.integer 0)) ∧
    (origin.isWidth = true → word.IsMachineWord) ∧
    (word.IsMachineWord ↔ 0 < word.bytes ∧ word.bytes.toNat < 2 ^ 29) ∧
    (word.bits? = none ↔ 2 ^ 29 ≤ word.bytes.toNat) ∧
    (∀ bits, ofBits? bits = some word ↔ 0 < word.bytes ∧ word.bits? = some bits) ∧
    (∀ count, ofBytes? count = some word ↔ 0 < word.bytes ∧ word.bytes = count) ∧
    (Origin.json word.toJson.compact).word? = some word := by
  refine ⟨?_, isMachineWord_of_isWidth h, isMachineWord_iff, bits?_eq_none_iff,
    fun bits => ofBits?_eq_some_iff, fun count => ofBytes?_eq_some_iff, json_word?_toJson word⟩
  rw [isMachineWord_iff]
  constructor
  · rintro ⟨hpos, hlt⟩
    refine ⟨hlt, ?_⟩
    rintro ⟨text, rfl, hparse⟩
    have hzero : some (Json.integer word.bytes.toNat) = some (.integer 0) :=
      (json_word?_eq_some_iff.mp h).symm.trans hparse
    have hbytes : (word.bytes.toNat : Int) = 0 := Json.integer.inj (Option.some.inj hzero)
    have hpositive : 0 < word.bytes.toNat := UInt32.lt_iff_toNat_lt.mp hpos
    omega
  · rintro ⟨hlt, hnot⟩
    have hne : word.bytes ≠ 0 := fun hzero => hnot (json_zero_of_bytes_eq_zero h hzero)
    exact ⟨UInt32.pos_iff_ne_zero.mpr hne, hlt⟩

/-- The greatest machine word, from its width in decimal with a sign in front. -/
theorem obtained_exact_greatest :
    let word : WordSize := ⟨536870911⟩
    (Origin.widthText "+4294967288").word? = some word ∧ word.IsMachineWord ∧
    ofBits? 4294967288 = some word ∧ (Origin.json word.toJson.compact).word? = some word := by
  intro word
  have hword : (Origin.widthText "+4294967288").word? = some word := by decide +kernel
  obtain ⟨-, hwidth, -, -, hbits, -, hjson⟩ := obtained_exact hword
  exact ⟨hword, hwidth rfl, (hbits _).mpr ⟨by decide, by decide⟩, hjson⟩

/-- Zero is read as a word size, though no width gives it and it has no byte; and a number of bytes may
leave no room for the width. -/
theorem zero_obtained :
    let zero : WordSize := ⟨0⟩
    let large : WordSize := ⟨536870912⟩
    ((Origin.json "0").word? = some zero ∧ ¬0 < zero.bytes ∧ zero.bits? = some 0 ∧
      ofBits? 0 = none ∧ ¬zero.IsMachineWord) ∧
    ((Origin.bytes 536870912).word? = some large ∧ large.bits? = none ∧ ¬large.IsMachineWord) := by
  intro zero large
  have hzero : ¬0 < zero.bytes := by decide
  have hlarge : large.bits? = none := by decide
  refine ⟨⟨by decide +kernel, hzero, by decide, by decide, fun h => hzero h.bytes_pos⟩,
    ⟨by decide, hlarge, ?_⟩⟩
  rintro ⟨-, bits, hbits, -⟩
  rw [hlarge] at hbits
  cases hbits

end DecompConfig.WordSize
