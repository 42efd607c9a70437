import DecompConfig.Frame.Offset
import DecompConfig.Json.Record

namespace DecompConfig

open Json

/-- Unsigned integers are words; a string is read as an offset. -/
def RawOffset.ofJson? : Json → Option RawOffset
  | integer (.ofNat n) => if n < UInt64.size then some (wire (.ofNat n)) else none
  | integer (.negSucc n) => if n < Nat.pow 2 63 then some (signed (.ofInt (.negSucc n))) else none
  | string s => (RawOffset.parse s).toOption
  | _ => none

def RawOffset.toJson (raw : RawOffset) : Json := integer raw.toInt

/-- A word size is read as it is written, without a check that it is positive. -/
def WordSize.ofJson? (j : Json) : Option WordSize := j.uint32?.map WordSize.mk

def WordSize.toJson (word : WordSize) : Json := integer word.bytes.toNat

/-- An offset of 128 bits; a negative zero is a zero. -/
def FrameOffset.ofJson? : Json → Option FrameOffset
  | integer n => ofInt? n
  | negativeZero => ofInt? 0
  | _ => none

def FrameOffset.toJson (offset : FrameOffset) : Json := integer offset.value

end DecompConfig
