namespace DecompConfig

/-- The types that the flattened encoding knows by a code of their own. -/
inductive Primitive where
  | void | i8 | i16 | i32 | i64 | float | double
  deriving Repr, DecidableEq

namespace Primitive

/-- The text that stands for a primitive in an encoded type. -/
def code : Primitive → String
  | void => "void"
  | i8 => "i8"
  | i16 => "i16"
  | i32 => "i32"
  | i64 => "i64"
  | float => "float"
  | double => "double"

/-- The primitive that one C type word names. Signed and unsigned words of a width share a code. -/
def ofWord? : String → Option Primitive
  | "void" => some void
  | "char" | "int8_t" | "uint8_t" => some i8
  | "short" | "int16_t" | "uint16_t" => some i16
  | "int" | "int32_t" | "uint32_t" => some i32
  | "long" | "int64_t" | "uint64_t" => some i64
  | "size_t" | "ssize_t" | "ptrdiff_t" | "intptr_t" | "uintptr_t" => some i64
  | "float" => some float
  | "double" => some double
  | _ => none

/-- The single type spelled by a primitive and the word after it, as in `long long`, `short int` and
`long double`. -/
def extend? : Primitive → String → Option Primitive
  | i64, "long" | i64, "int" => some i64
  | i16, "int" => some i16
  | i64, "double" => some double
  | _, _ => none

theorem isSome_ofWord?_of_extend? {p q : Primitive} {word : String} (h : p.extend? word = some q) :
    (ofWord? word).isSome := by
  unfold extend? at h
  split at h <;> first | rfl | contradiction

end Primitive

end DecompConfig
