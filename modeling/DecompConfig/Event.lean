import DecompConfig.Config.ConversionError
import DecompConfig.Text.Number

namespace DecompConfig

/-- How much attention an event deserves, the most urgent first. -/
inductive Level where
  | error | warn | info | debug | trace
  deriving Repr, DecidableEq

namespace Level

def label : Level → String
  | error => "ERROR"
  | warn => "WARN"
  | info => "INFO"
  | debug => "DEBUG"
  | trace => "TRACE"

def rank : Level → Nat
  | error => 1
  | warn => 2
  | info => 3
  | debug => 4
  | trace => 5

end Level

/-- What happens while types are lowered and functions are converted. -/
inductive Event where
  /-- The oracle is asked for an aggregate. -/
  | asked (name : String)
  /-- The oracle answers with the text of a definition. -/
  | answered (name : String) (response : String)
  | converting (function : String) (address : UInt64)
  | unknownConvention (convention : String) (function : String)
  /-- A variable has no location and is left out. -/
  | unlocated (name : String) (function : String)
  /-- A function is left out of the configuration. -/
  | skipped (function : String) (cause : ConversionError)
  | built (functions : Nat) (globals : Nat)
  deriving Repr, DecidableEq

namespace Event

def level : Event → Level
  | answered .. => .trace
  | asked .. | converting .. => .debug
  | built .. => .info
  | unknownConvention .. | unlocated .. | skipped .. => .warn

def message : Event → String
  | asked name => "resolving aggregate `" ++ name ++ "`"
  | answered name response => "definition of `" ++ name ++ "`: " ++ Text.quoted response
  | converting function address =>
    "converting function `" ++ function ++ "` at " ++ String.ofList (Text.hexadecimal address.toNat)
  | unknownConvention convention function =>
    "unknown calling convention `" ++ convention ++ "` in `" ++ function ++ "`"
  | unlocated name function =>
    "variable `" ++ name ++ "` of `" ++ function ++ "` has no location, skipped"
  | skipped function cause => "skipping function `" ++ function ++ "`: " ++ cause.message
  | built functions globals =>
    "built config with " ++ toString functions ++ " functions and " ++ toString globals ++ " globals"

/-- The aggregate that the oracle is asked for. -/
def query? : Event → Option String
  | asked name => some name
  | _ => none

end Event

end DecompConfig
