import DecompConfig.Frame.Offset

namespace DecompConfig.Analysis

/-- Where a variable lives. -/
inductive Location where
  /-- A slot of the frame, relative to a base such as `rbp`. -/
  | frame (base : Option String) (offset : RawOffset)
  | register (name : String)
  deriving DecidableEq

structure Variable where
  name : String
  type : String
  location : Option Location
  deriving DecidableEq

structure Argument where
  name : String
  type : String
  deriving DecidableEq

/-- A function as an analysis tool reports it. -/
structure Function where
  name : String
  address : UInt64
  /-- The number of its bytes. -/
  size : UInt64
  convention : Option String
  /-- The variables relative to the base pointer. -/
  baseVariables : List Variable
  /-- The variables relative to the stack pointer. -/
  stackVariables : List Variable
  /-- The variables in registers. -/
  registerVariables : List Variable
  arguments : List Argument
  returnType : String
  deriving DecidableEq

/-- The greatest address. -/
def maxAddress : Nat := UInt64.size - 1

/-- The address after the last byte of a function, or the greatest address if there is none. -/
def Function.endAddress (f : Function) : UInt64 :=
  .ofNat (min (f.address.toNat + f.size.toNat) maxAddress)

/-- All variables of a function, in the order in which they are converted. -/
def Function.variables (f : Function) : List Variable :=
  f.stackVariables ++ f.baseVariables ++ f.registerVariables

/-- An entry of a symbol table. -/
structure Symbol where
  flagName : String
  address : UInt64
  binding : String
  kind : String
  deriving DecidableEq

/-- A name that a user or an analysis gave to an address. -/
structure Flag where
  name : String
  address : UInt64
  deriving DecidableEq

end DecompConfig.Analysis
