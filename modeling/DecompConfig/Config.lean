import DecompConfig.Frame.Offset

namespace DecompConfig

/-- Where the decompiler finds a variable. -/
inductive Storage where
  /-- At an offset in the frame. -/
  | stack (offset : FrameOffset)
  | register (name : String)
  /-- At an absolute address, written in hexadecimal. -/
  | global (address : String)
  deriving DecidableEq

namespace Config

/-- A type in its encoding. -/
structure EncodedType where
  code : String
  deriving DecidableEq

structure Parameter where
  name : String
  realName : String
  type : EncodedType
  deriving DecidableEq

structure LocalVariable where
  name : String
  realName : String
  storage : Storage
  type : EncodedType
  deriving DecidableEq

/-- A function as the decompiler reads it. -/
structure Function where
  startAddress : String
  endAddress : String
  name : String
  realName : String
  convention : String
  parameters : List Parameter
  locals : List LocalVariable
  returnType : EncodedType
  deriving DecidableEq

structure GlobalVariable where
  name : String
  storage : Storage
  deriving DecidableEq

end Config

/-- A decompiler configuration. -/
structure Config where
  functions : List Config.Function
  globals : List Config.GlobalVariable
  deriving DecidableEq

/-- An address as configurations write it. -/
def addressText (address : UInt64) : String := .ofList (Text.hexadecimal address.toNat)

end DecompConfig
