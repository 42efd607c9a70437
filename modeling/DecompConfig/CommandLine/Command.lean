import DecompConfig.CommandLine.Arguments
import DecompConfig.Frame.Offset
import DecompConfig.Lowering

namespace DecompConfig.CommandLine

/-- Where a command takes its aggregates from. -/
structure TypeSource where
  /-- The path of a JSON table. -/
  types : Option String
  /-- The path of a listing of definitions. -/
  definitions : Option String
  /-- The names of builtin sets. -/
  builtin : List String
  /-- The greatest number of aggregates inside one another. -/
  depth : Nat
  deriving DecidableEq

/-- What is made into a configuration, and how. -/
structure ConfigRequest where
  /-- The path of the function list. -/
  functions : String
  /-- The path of the symbol list. -/
  symbols : Option String
  /-- The path of the flag list. -/
  flags : Option String
  source : TypeSource
  word : WordSize
  /-- The path of the file to write, instead of the standard output. -/
  output : Option String
  lenient : Bool
  deriving DecidableEq

inductive Command where
  | lower (type : String) (source : TypeSource)
  | offset (raw : RawOffset) (word : WordSize)
  | convention (name : String)
  | config (request : ConfigRequest)
  | listSets
  | listTypes (source : TypeSource)
  | showType (name : String) (source : TypeSource)
  deriving DecidableEq

/-- The files that a source reads. -/
def TypeSource.paths (source : TypeSource) : List String :=
  source.definitions.toList ++ source.types.toList

/-- The files that a command reads. -/
def Command.paths : Command → List String
  | lower _ source | listTypes source | showType _ source => source.paths
  | config request =>
    request.functions :: request.symbols.toList ++ request.flags.toList ++ request.source.paths
  | offset .. | convention _ | listSets => []

/-- The option that every command understands. -/
def verboseOption : OptionSpec := ⟨"verbose", some 'v', false, true⟩

def valueOption (long : String) (short : Option Char) : OptionSpec := ⟨long, short, true, false⟩

/-- The options that tell where aggregates come from. -/
def sourceOptions : List OptionSpec :=
  [valueOption "types" (some 't'), valueOption "definitions" (some 'd'),
    ⟨"builtin", some 'b', true, true⟩, valueOption "max-depth" none]

/-- The commands without subcommands, by name. -/
def commandGrammar? : String → Option Grammar
  | "lower" => some ⟨verboseOption :: sourceOptions, 1, false⟩
  | "offset" => some ⟨[verboseOption, valueOption "bits" none], 1, true⟩
  | "callconv" => some ⟨[verboseOption], 1, false⟩
  | "config" =>
    some ⟨verboseOption :: valueOption "symbols" none :: valueOption "flags" none ::
      valueOption "bits" none :: valueOption "output" (some 'o') ::
      ⟨"lenient", none, false, false⟩ :: sourceOptions, 1, false⟩
  | _ => none

/-- The subcommands of `types`, by name. -/
def typesGrammar? : String → Option Grammar
  | "builtin" => some ⟨[verboseOption], 0, false⟩
  | "list" => some ⟨verboseOption :: sourceOptions, 0, false⟩
  | "show" => some ⟨verboseOption :: sourceOptions, 1, false⟩
  | _ => none

/-- The path that an option names. A path is not empty. -/
def path? (a : Arguments) (long : String) : Option (Option String) :=
  match a.value? long with
  | none => some none
  | some "" => none
  | some path => some (some path)

def typeSource? (a : Arguments) : Option TypeSource := do
  let types ← path? a "types"
  let definitions ← path? a "definitions"
  let depth ← match a.value? "max-depth" with
    | none => some defaultDepth
    | some text => Text.nat? 10 UInt64.size text.toList
  return { types, definitions, builtin := a.values "builtin", depth }

def wordSize? (a : Arguments) : Option WordSize :=
  match a.value? "bits" with
  | none => some .bits64
  | some text => WordSize.ofBitsText? text

def configRequest? (functions : String) (a : Arguments) : Option ConfigRequest := do
  if functions = "" then none
  return {
    functions
    symbols := ← path? a "symbols"
    flags := ← path? a "flags"
    source := ← typeSource? a
    word := ← wordSize? a
    output := ← path? a "output"
    lenient := a.has "lenient" }

/-- The command called `name`. -/
def command? (name : String) (a : Arguments) : Option Command :=
  match name, a.positionals with
  | "lower", [type] => (typeSource? a).map (.lower type)
  | "offset", [raw] => do return .offset (← (RawOffset.parse raw).toOption) (← wordSize? a)
  | "callconv", [convention] => some (.convention convention)
  | "config", [functions] => (configRequest? functions a).map .config
  | _, _ => none

/-- The subcommand of `types` called `name`. -/
def typesCommand? (name : String) (a : Arguments) : Option Command :=
  match name, a.positionals with
  | "builtin", [] => some .listSets
  | "list", [] => (typeSource? a).map .listTypes
  | "show", [type] => (typeSource? a).map (.showType type)
  | _, _ => none

/-- A command, and how often more detail was asked for. -/
structure Invocation where
  command : Command
  verbosity : Nat
  deriving DecidableEq

/-- Splits arguments into the options that every command understands, a name, and what follows. -/
def untilName? : List String → Option (Nat × String × List String)
  | [] => none
  | s :: rest =>
    match s.toList with
    | '-' :: c :: letters => do
      let given ← if s = "--verbose" then some 1
        else if (c :: letters).all (· == 'v') then some (letters.length + 1) else none
      let (more, found) ← untilName? rest
      return (given + more, found)
    | _ => some (0, s, rest)

/-- The invocation that a command line describes, nothing if it describes none. -/
def Invocation.ofArguments? (args : List String) : Option Invocation := do
  let (verbosity, name, args) ← untilName? args
  if name = "types" then
    let (more, name, args) ← untilName? args
    let a ← (← typesGrammar? name).parse? args
    return ⟨← typesCommand? name a, verbosity + more + (a.values "verbose").length⟩
  else
    let a ← (← commandGrammar? name).parse? args
    return ⟨← command? name a, verbosity + (a.values "verbose").length⟩

end DecompConfig.CommandLine
