import DecompConfig.Analysis
import DecompConfig.Frame.Json
import DecompConfig.Json.Record

namespace DecompConfig

open Json

namespace Analysis

/-- A location is told by its kind of value: a string names a register, an object describes a slot of
the frame. As the kind is not known beforehand, the whole object must be readable. -/
def Location.ofJson? : Json → Option Location
  | string s => some (register s)
  | object fields => do
    guard (fieldsAreReadable fields)
    let fields ← knownFields? ["base", "offset"] fields
    return frame (← fields.orElse? "base" none (optional? string?))
      (← fields.required? "offset" RawOffset.ofJson?)
  | _ => none

def Location.toJson : Location → Json
  | frame base offset => object [("base", ofOption string base), ("offset", offset.toJson)]
  | register name => string name

def Variable.ofJson? (j : Json) : Option Variable := do
  let fields ← j.record? ["name", "type", "ref"]
  return {
    name := ← fields.required? "name" string?
    type := ← fields.required? "type" string?
    location := ← fields.orElse? "ref" none (optional? Location.ofJson?) }

def Variable.toJson (v : Variable) : Json :=
  object [("name", string v.name), ("type", string v.type),
    ("ref", ofOption Location.toJson v.location)]

def Argument.ofJson? (j : Json) : Option Argument := do
  let fields ← j.record? ["name", "type"]
  return {
    name := ← fields.required? "name" string?
    type := ← fields.required? "type" string? }

def Argument.toJson (a : Argument) : Json :=
  object [("name", string a.name), ("type", string a.type)]

def Function.ofJson? (j : Json) : Option Function := do
  let fields ← j.record?
    ["name", "offset", "size", "calltype", "bpvars", "spvars", "regvars", "args", "return"]
  return {
    name := ← fields.required? "name" string?
    address := ← fields.required? "offset" uint64?
    size := ← fields.required? "size" uint64?
    convention := ← fields.orElse? "calltype" none (optional? string?)
    baseVariables := ← fields.orElse? "bpvars" [] (list? Variable.ofJson?)
    stackVariables := ← fields.orElse? "spvars" [] (list? Variable.ofJson?)
    registerVariables := ← fields.orElse? "regvars" [] (list? Variable.ofJson?)
    arguments := ← fields.orElse? "args" [] (list? Argument.ofJson?)
    returnType := ← fields.orElse? "return" "void" string? }

def Function.toJson (f : Function) : Json :=
  object [("name", string f.name), ("offset", ofUInt64 f.address), ("size", ofUInt64 f.size),
    ("calltype", ofOption string f.convention),
    ("bpvars", ofList Variable.toJson f.baseVariables),
    ("spvars", ofList Variable.toJson f.stackVariables),
    ("regvars", ofList Variable.toJson f.registerVariables),
    ("args", ofList Argument.toJson f.arguments), ("return", string f.returnType)]

def Symbol.ofJson? (j : Json) : Option Symbol := do
  let fields ← j.record? ["flagname", "vaddr", "bind", "type"]
  return {
    flagName := ← fields.required? "flagname" string?
    address := ← fields.required? "vaddr" uint64?
    binding := ← fields.required? "bind" string?
    kind := ← fields.required? "type" string? }

def Symbol.toJson (s : Symbol) : Json :=
  object [("flagname", string s.flagName), ("vaddr", ofUInt64 s.address),
    ("bind", string s.binding), ("type", string s.kind)]

def Flag.ofJson? (j : Json) : Option Flag := do
  let fields ← j.record? ["name", "offset"]
  return {
    name := ← fields.required? "name" string?
    address := ← fields.required? "offset" uint64? }

def Flag.toJson (f : Flag) : Json :=
  object [("name", string f.name), ("offset", ofUInt64 f.address)]

end Analysis

end DecompConfig
