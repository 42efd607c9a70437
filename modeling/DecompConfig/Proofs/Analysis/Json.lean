import DecompConfig.Analysis.Json
import DecompConfig.Config.Building
import DecompConfig.Json.Writing
import DecompConfig.Proofs.Json.Record

namespace DecompConfig

open Json

section Offsets

namespace RawOffset

/-- The offset that is read back for an offset: without a minus sign it is a word. -/
def reread : RawOffset → RawOffset
  | wire v => wire v
  | signed v => if 0 ≤ v then wire v.toUInt64 else signed v

theorem toInt_toUInt64 {v : Int64} (h : 0 ≤ v) : (v.toUInt64.toNat : Int) = v.toInt := by
  rw [Int64.toNat_toUInt64_of_le h, Int64.cast_toNatClampNeg v h]

theorem toInt_reread (raw : RawOffset) : raw.reread.toInt = raw.toInt := by
  cases raw with
  | wire v => rfl
  | signed v =>
    rw [reread]
    split
    next h => exact toInt_toUInt64 h
    next => rfl

/-- A nonnegative offset is the same number as a word, for it lies in the lower half of the words. -/
theorem recovered_reread (raw : RawOffset) : raw.reread.recovered = raw.recovered := by
  cases raw with
  | wire v => rfl
  | signed v =>
    rw [reread]
    split
    next h =>
      have hvalue := toInt_toUInt64 h
      have hlt : v.toInt < 2 ^ 63 := v.toInt_lt
      have hhalf : v.toUInt64.toNat < Nat.pow 2 63 := by
        have hpow : Nat.pow 2 63 = 2 ^ 63 := rfl
        omega
      rw [recovered, if_pos hhalf]
      exact hvalue
    next => rfl

theorem normalize_reread (raw : RawOffset) (word : WordSize) :
    raw.reread.normalize word = raw.normalize word := by
  simp only [normalize, recovered_reread]

example : (signed 16).reread = wire 16 ∧ (signed (-4)).reread = signed (-4) := by decide

theorem natAbs_toInt_lt (raw : RawOffset) : raw.toInt.natAbs < UInt64.size := by
  have hsize : UInt64.size = 2 * 2 ^ 63 := rfl
  cases raw with
  | wire v =>
    have hlt := v.toNat_lt_size
    rw [toInt]
    omega
  | signed v =>
    have hlt := v.toInt_lt
    have hle := v.le_toInt
    rw [toInt]
    omega

theorem ofJson?_toJson (raw : RawOffset) : ofJson? raw.toJson = some raw.reread := by
  cases raw with
  | wire v =>
    show (if v.toNat < UInt64.size then some (wire (.ofNat v.toNat)) else none) = some (wire v)
    rw [if_pos v.toNat_lt_size, UInt64.ofNat_toNat]
  | signed v =>
    have hle := v.le_toInt
    have hlt := (signed v).natAbs_toInt_lt
    rw [toInt] at hlt
    rw [toJson, toInt, reread]
    cases hv : v.toInt with
    | ofNat n =>
      have hnonneg : 0 ≤ v := by
        rw [Int64.le_iff_toInt_le, hv]
        exact Int.natCast_nonneg n
      have hword : v.toUInt64 = .ofNat n := by
        have hvalue := toInt_toUInt64 hnonneg
        rw [hv] at hvalue
        rw [← UInt64.ofNat_toNat (x := v.toUInt64), Int.ofNat.inj hvalue]
      have hfits : n < UInt64.size := by
        rw [hv] at hlt
        exact hlt
      rw [ofJson?, if_pos hfits, if_pos hnonneg, hword]
    | negSucc n =>
      have hneg : ¬0 ≤ v := by
        rw [Int64.le_iff_toInt_le, hv]
        exact Int.not_le.mpr (Int.negSucc_lt_zero n)
      have hfits : n < Nat.pow 2 63 := by
        have hpow : Nat.pow 2 63 = 2 ^ 63 := rfl
        omega
      rw [ofJson?, if_pos hfits, if_neg hneg, ← hv, Int64.ofInt_toInt]

end RawOffset

end Offsets

namespace Analysis

section Rereading

/-- The location that is read back for a location. -/
def Location.reread : Location → Location
  | frame base offset => frame base offset.reread
  | register name => register name

def Variable.reread (v : Variable) : Variable := { v with location := v.location.map Location.reread }

/-- The function that is read back for a function: each offset without a minus sign is a word. -/
def Function.reread (f : Function) : Function :=
  { f with
    baseVariables := f.baseVariables.map Variable.reread
    stackVariables := f.stackVariables.map Variable.reread
    registerVariables := f.registerVariables.map Variable.reread }

end Rereading

section Codecs

theorem Location.ofJson?_toJson (location : Location) :
    ofJson? location.toJson = some location.reread := by
  cases location with
  | register name => rfl
  | frame base offset =>
    have hbase : (ofOption string base).isReadable = true := by cases base <;> rfl
    have hnumber : offset.toJson.isReadable = true := fitsDouble_of_lt offset.natAbs_toInt_lt
    have hguard : guard (fieldsAreReadable
        [("base", ofOption string base), ("offset", offset.toJson)] = true) = some () :=
      if_pos (by simp [fieldsAreReadable, hbase, hnumber])
    have hoffset := offset.ofJson?_toJson
    rw [toJson, ofJson?, hguard]
    simp [reread, hoffset]

theorem Variable.ofJson?_toJson (v : Variable) : ofJson? v.toJson = some v.reread := by
  have hlocation := optional?_ofOption (fun location => by cases location <;> nofun)
    Location.ofJson?_toJson v.location
  simp [toJson, ofJson?, reread, hlocation]

theorem Argument.ofJson?_toJson (a : Argument) : ofJson? a.toJson = some a := by
  simp [toJson, ofJson?]

theorem Function.ofJson?_toJson (f : Function) : ofJson? f.toJson = some f.reread := by
  have hvariables := list?_ofList Variable.ofJson?_toJson
  have harguments := list?_ofList Argument.ofJson?_toJson f.arguments
  simp [toJson, ofJson?, reread, hvariables, harguments]

end Codecs

section Rewriting

/-- What is read back is written as it was written before. -/
theorem Location.toJson_reread (location : Location) : location.reread.toJson = location.toJson := by
  cases location with
  | register name => rfl
  | frame base offset => rw [reread, toJson, toJson, RawOffset.toJson, offset.toInt_reread]; rfl

theorem Variable.toJson_reread (v : Variable) : v.reread.toJson = v.toJson := by
  cases hlocation : v.location with
  | none => simp [toJson, reread, hlocation]
  | some location => simp [toJson, reread, hlocation, ofOption, location.toJson_reread]

theorem Function.toJson_reread (f : Function) : f.reread.toJson = f.toJson := by
  have hvariables (vs : List Variable) :
      ofList Variable.toJson (vs.map Variable.reread) = ofList Variable.toJson vs := by
    simp [ofList, Variable.toJson_reread]
  simp [toJson, reread, hvariables]

theorem ofList_reread (fs : List Function) :
    ofList Function.toJson (fs.map Function.reread) = ofList Function.toJson fs := by
  simp [ofList, Function.toJson_reread]

end Rewriting

section Nesting

theorem Location.nesting_toJson_le (location : Location) : location.toJson.nesting ≤ 1 := by
  cases location with
  | register name => exact Nat.zero_le 1
  | frame base offset =>
    simp only [toJson, RawOffset.toJson, nesting, fieldNesting, nesting_ofOption_string]
    omega

theorem Variable.nesting_toJson_le (v : Variable) : v.toJson.nesting ≤ 2 := by
  have hlocation := nesting_ofOption_le Location.nesting_toJson_le v.location
  simp only [toJson, nesting, fieldNesting]
  omega

theorem Argument.nesting_toJson_le (a : Argument) : a.toJson.nesting ≤ 1 := by
  simp only [toJson, nesting, fieldNesting]
  omega

theorem Function.nesting_toJson_le (f : Function) : f.toJson.nesting ≤ 4 := by
  have hvariables := nesting_ofList_le Variable.nesting_toJson_le
  have hbase := hvariables f.baseVariables
  have hstack := hvariables f.stackVariables
  have hregister := hvariables f.registerVariables
  have harguments := nesting_ofList_le Argument.nesting_toJson_le f.arguments
  simp only [toJson, ofUInt64, nesting, fieldNesting, nesting_ofOption_string]
  omega

theorem nesting_ofList_functions_le (fs : List Function) :
    (ofList Function.toJson fs).nesting ≤ maxNesting :=
  Nat.le_trans (nesting_ofList_le Function.nesting_toJson_le fs) (by decide)

end Nesting

end Analysis

section Conversion

variable {σ : Type} (c : Converter σ)

namespace Converter

theorem storage_reread (location : Analysis.Location) :
    c.storage location.reread = c.storage location := by
  cases location with
  | frame base offset => exact congrArg Storage.stack (offset.normalize_reread c.word)
  | register name => rfl

theorem locals_reread (function : String) (vs : List Analysis.Variable) :
    c.locals function (vs.map Analysis.Variable.reread) = c.locals function vs := by
  induction vs with
  | nil => rfl
  | cons v vs ih =>
    obtain ⟨name, type, location⟩ := v
    cases location with
    | none =>
      show (Run.emit _ >>= fun _ => c.locals function (vs.map _)) = _
      rw [ih]
      rfl
    | some location =>
      show (c.lower _ _ >>= fun type => c.locals function (vs.map _) >>= fun rest =>
        pure (⟨name, name, c.storage location.reread, type⟩ :: rest)) = _
      rw [ih, c.storage_reread]
      rfl

theorem function_reread (f : Analysis.Function) : c.function f.reread = c.function f := by
  have hvariables : f.reread.variables = f.variables.map Analysis.Variable.reread := by
    simp [Analysis.Function.variables, Analysis.Function.reread]
  rw [function, hvariables]
  simp only [c.locals_reread]
  rfl

theorem functions_reread (lenient : Bool) (fs : List Analysis.Function) :
    c.functions lenient (fs.map Analysis.Function.reread) = c.functions lenient fs := by
  induction fs with
  | nil => rfl
  | cons f fs ih =>
    rw [List.map_cons, functions, functions, c.function_reread, ih]
    rfl

/-- The sign under which an offset is written does not show in what is built. -/
theorem build_reread (lenient : Bool) (fs : List Analysis.Function)
    (symbols : List Analysis.Symbol) (flags : List Analysis.Flag) :
    c.build lenient (fs.map Analysis.Function.reread) symbols flags =
      c.build lenient fs symbols flags := by
  have haddresses : (fs.map Analysis.Function.reread).map Analysis.Function.address =
      fs.map Analysis.Function.address := by
    rw [List.map_map]
    rfl
  rw [build, build, c.functions_reread, haddresses]

end Converter

end Conversion

namespace Analysis

theorem ofJson?_parse?_write {l : Layout} (hl : l.Spaced) (fs : List Function) :
    (parse? (.ofList ((ofList Function.toJson fs).write l 0))).bind (list? Function.ofJson?) =
      some (fs.map Function.reread) := by
  rw [parse?_write hl (nesting_ofList_functions_le fs), Option.bind_some,
    list?_ofList Function.ofJson?_toJson]

/-- Functions that are written and read again are the same but for the kinds of their offsets, do not
change any more, and are built into the same configuration by the same events. -/
theorem functions_roundtrip (fs : List Function) :
    let read (text : String) := (parse? text).bind (list? Function.ofJson?)
    let back := fs.map Function.reread
    read (ofList Function.toJson fs).compact = some back ∧
      read (ofList Function.toJson fs).pretty = some back ∧
      read (ofList Function.toJson back).compact = some back ∧
      read (ofList Function.toJson back).pretty = some back ∧
      ∀ (σ : Type) (b : Builder σ) (lenient : Bool) (symbols : List Symbol) (flags : List Flag)
        (s : σ), b.build lenient back symbols flags s = b.build lenient fs symbols flags s := by
  intro read back
  have hcompact : read (ofList Function.toJson fs).compact = some back :=
    ofJson?_parse?_write Layout.spaced_compact fs
  have hpretty : read (ofList Function.toJson fs).pretty = some back :=
    ofJson?_parse?_write Layout.spaced_pretty fs
  have hback : ofList Function.toJson back = ofList Function.toJson fs := ofList_reread fs
  rw [hback]
  refine ⟨hcompact, hpretty, hcompact, hpretty, ?_⟩
  intro σ b lenient symbols flags s
  exact congrFun (b.converter.build_reread lenient fs symbols flags) s

end Analysis

end DecompConfig
