import DecompConfig.CallingConvention
import DecompConfig.Config.Globals
import DecompConfig.Lowering

namespace DecompConfig

/-- What a conversion of functions rests on. -/
structure Converter (σ : Type) where
  /-- The encoding of a type. -/
  encode : (type : String) → Run σ LoweringError String
  word : WordSize

namespace Converter

variable {σ : Type} (c : Converter σ)

/-- The encoding of the type of a part of a function. -/
def lower (subject : Subject) (type : String) : Run σ ConversionError Config.EncodedType :=
  ((fun code => ⟨code⟩) <$> c.encode type).mapError fun cause => ⟨subject, cause⟩

/-- The tag of the calling convention of the function `name`. -/
def convention (name : String) : Option String → Run σ ConversionError String
  | none => pure unknownConvention
  | some convention => do
    if conventionTag convention = unknownConvention then .emit (.unknownConvention convention name)
    return conventionTag convention

/-- The parameters of the function `function`. -/
def parameters (function : String) :
    List Analysis.Argument → Run σ ConversionError (List Config.Parameter)
  | [] => pure []
  | a :: rest => do
    let type ← c.lower (.parameter a.name function) a.type
    return { name := a.name, realName := a.name, type } :: (← parameters function rest)

/-- The storage of a variable at a location. -/
def storage : Analysis.Location → Storage
  | .frame _ offset => .stack (offset.normalize c.word)
  | .register name => .register name

/-- The local variables of the function `function`; a variable without a location is left out. -/
def locals (function : String) :
    List Analysis.Variable → Run σ ConversionError (List Config.LocalVariable)
  | [] => pure []
  | v :: rest =>
    match v.location with
    | none => do
      .emit (.unlocated v.name function)
      locals function rest
    | some location => do
      let type ← c.lower (.localVariable v.name function) v.type
      return { name := v.name, realName := v.name, storage := c.storage location, type }
        :: (← locals function rest)

/-- The configuration of one function. -/
def function (f : Analysis.Function) : Run σ ConversionError Config.Function := do
  let name := functionName f.name
  .emit (.converting name f.address)
  let convention ← convention name f.convention
  let parameters ← c.parameters name f.arguments
  let locals ← c.locals name f.variables
  let returnType ← c.lower (.returnValue name) f.returnType
  return {
    startAddress := addressText f.address
    endAddress := addressText f.endAddress
    name
    realName := name
    convention
    parameters
    locals
    returnType }

/-- The configurations of functions, in order. A function that cannot be converted is left out if
`lenient` says so and is an error otherwise. -/
def functions (lenient : Bool) :
    List Analysis.Function → Run σ ConversionError (List Config.Function)
  | [] => pure []
  | f :: rest => do
    match ← (c.function f).attempt with
    | .ok record => return record :: (← functions lenient rest)
    | .error e =>
      if lenient then
        .emit (.skipped f.name e)
        functions lenient rest
      else .fail e

/-- The configuration of a program. -/
def build (lenient : Bool) (functions : List Analysis.Function) (symbols : List Analysis.Symbol)
    (flags : List Analysis.Flag) : Run σ ConversionError Config := do
  let records ← c.functions lenient functions
  let globals := globalVariables symbols flags (functions.map Analysis.Function.address)
  .emit (.built records.length globals.length)
  return { functions := records, globals }

end Converter

/-- How functions are converted. -/
structure Builder (σ : Type) where
  oracle : Oracle σ
  word : WordSize
  /-- The greatest number of aggregates inside one another. -/
  depth : Nat

namespace Builder

variable {σ : Type} (b : Builder σ)

/-- Each type is encoded on its own, with the oracle as the types before it left it. -/
def converter : Converter σ := ⟨lowerType b.oracle b.depth, b.word⟩

/-- The configuration of one function. -/
def function (f : Analysis.Function) : Run σ ConversionError Config.Function :=
  b.converter.function f

/-- The configuration of a program. -/
def build (lenient : Bool) (functions : List Analysis.Function) (symbols : List Analysis.Symbol)
    (flags : List Analysis.Flag) : Run σ ConversionError Config :=
  b.converter.build lenient functions symbols flags

end Builder

end DecompConfig
