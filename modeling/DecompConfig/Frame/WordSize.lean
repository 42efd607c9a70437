import DecompConfig.Text.Number

namespace DecompConfig

/-- The size of a machine word in bytes. -/
structure WordSize where
  bytes : UInt32
  deriving Repr, DecidableEq

namespace WordSize

/-- The word size of 64-bit targets. -/
def bits64 : WordSize := ⟨8⟩

/-- A word has at least one byte. -/
def ofBytes? (bytes : UInt32) : Option WordSize := if 0 < bytes then some ⟨bytes⟩ else none

/-- The word size of an architecture of the given width, which must be a whole number of bytes. -/
def ofBits? (bits : UInt32) : Option WordSize := if bits % 8 = 0 then ofBytes? (bits / 8) else none

/-- The word size of an architecture whose width is written in decimal. -/
def ofBitsText? (text : String) : Option WordSize := do
  ofBits? (.ofNat (← Text.nat? 10 UInt32.size text.toList))

/-- The width in bits if it fits a 32-bit number. -/
def bits? (word : WordSize) : Option UInt32 :=
  if word.bytes.toNat * 8 < UInt32.size then some (word.bytes * 8) else none

def text (word : WordSize) : String := toString word.bytes.toNat ++ " bytes"

end WordSize

end DecompConfig
