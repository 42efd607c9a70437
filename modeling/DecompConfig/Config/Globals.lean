import DecompConfig.Analysis
import DecompConfig.Config
import DecompConfig.Name

namespace DecompConfig

open Analysis

/-- Whether a symbol may be a global variable. Functions qualify too, so their addresses have to be
left out. -/
def Analysis.Symbol.mayBeGlobal (s : Symbol) : Bool :=
  s.binding == "GLOBAL" && (s.kind == "OBJ" || s.kind == "FUNC")

/-- The name that the last flag at an address gives to it. -/
def flagAt? (flags : List Flag) (address : UInt64) : Option String :=
  (flags.reverse.find? (·.address == address)).map Flag.name

/-- The global variables, in the order of their symbols: the symbols that may be one and are at no
start of a function. A flag at the address of a symbol overrides its name. -/
def globalVariables (symbols : List Symbol) (flags : List Flag) (functionStarts : List UInt64) :
    List Config.GlobalVariable :=
  (symbols.filter fun s => s.mayBeGlobal && !functionStarts.contains s.address).map fun s =>
    { name := (flagAt? flags s.address).getD (symbolName s.flagName)
      storage := .global (addressText s.address) }

end DecompConfig
