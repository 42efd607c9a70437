import DecompConfig.Frame.WordSize
import DecompConfig.Text.Blank
import DecompConfig.Text.Quoted

namespace DecompConfig

/-- An offset as an analysis tool reports it. -/
inductive RawOffset where
  /-- A 64-bit word whose upper half stands for the negative offsets. -/
  | wire (value : UInt64)
  /-- A value that carries its sign. -/
  | signed (value : Int64)
  deriving DecidableEq

/-- The text, without the blanks around it, is no offset. -/
structure OffsetError where
  text : String
  deriving Repr, DecidableEq

def OffsetError.message (e : OffsetError) : String := "invalid offset: " ++ Text.quoted e.text

namespace RawOffset

/-- Reads an offset without blanks around it: hexadecimal digits after `0x` write a word, decimal
digits a signed value or, past the signed values, a word. -/
def ofText? : List Char → Option RawOffset
  | '0' :: 'x' :: digits | '0' :: 'X' :: digits =>
    (Text.nat? 16 UInt64.size digits).map fun n => wire (.ofNat n)
  | s =>
    match Text.int? (Nat.pow 2 63) s with
    | some n => some (signed (.ofInt n))
    | none => (Text.nat? 10 UInt64.size s).map fun n => wire (.ofNat n)

/-- Reads an offset. -/
def parse (text : String) : Except OffsetError RawOffset :=
  let s := Text.trim text.toList
  match ofText? s with
  | some raw => .ok raw
  | none => .error ⟨.ofList s⟩

/-- The number as it is written. -/
def toInt : RawOffset → Int
  | wire v => v.toNat
  | signed v => v.toInt

/-- The offset with its sign recovered. -/
def recovered : RawOffset → Int
  | wire v => if v.toNat < Nat.pow 2 63 then v.toNat else v.toNat - UInt64.size
  | signed v => v.toInt

theorem recovered_inRange (raw : RawOffset) :
    -Int.pow 2 63 ≤ raw.recovered ∧ raw.recovered < Int.pow 2 63 := by
  cases raw with
  | wire v =>
    have hsize : UInt64.size = 2 * Nat.pow 2 63 := rfl
    have hpow : Int.pow 2 63 = (Nat.pow 2 63 : Nat) := rfl
    have hlt : v.toNat < UInt64.size := v.toNat_lt_size
    unfold recovered
    dsimp only
    split <;> omega
  | signed v => exact ⟨v.le_toInt, v.toInt_lt⟩

end RawOffset

/-- A frame-relative offset, a signed 128-bit number. -/
structure FrameOffset where
  value : Int
  inRange : -Int.pow 2 127 ≤ value ∧ value < Int.pow 2 127
  deriving DecidableEq

namespace FrameOffset

def ofInt? (n : Int) : Option FrameOffset :=
  if h : -Int.pow 2 127 ≤ n ∧ n < Int.pow 2 127 then some ⟨n, h⟩ else none

end FrameOffset

/-- The offset of a variable as the decompiler counts it: the sign is recovered and the frame moved by
one machine word. -/
def RawOffset.normalize (raw : RawOffset) (word : WordSize) : FrameOffset where
  value := raw.recovered - word.bytes.toNat
  inRange := by
    have hgap : Int.pow 2 63 + UInt32.size ≤ Int.pow 2 127 := by decide
    have hrange := raw.recovered_inRange
    have hbytes : word.bytes.toNat < UInt32.size := word.bytes.toNat_lt_size
    omega

end DecompConfig
