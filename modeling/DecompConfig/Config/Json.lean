import DecompConfig.Config
import DecompConfig.Frame.Json
import DecompConfig.Json.Record
import DecompConfig.Json.Writing

namespace DecompConfig

open Json

namespace Storage

/-- The kind in the fields of a storage: its name, alone or as the only field of an object without a
value. -/
def kind? : Json → Option String
  | string kind => some kind
  | object [(kind, null)] => some kind
  | _ => none

/-- The storage of a named kind. -/
def ofKind? (kind : String) (value : Json) : Option Storage :=
  match kind with
  | "stack" => (FrameOffset.ofJson? value).map stack
  | "register" => value.string?.map register
  | "global" => value.string?.map global
  | _ => none

/-- A storage is its kind and its value, in an array, where the kind is a name, or in the fields of an
object. A value that stands before its kind cannot be a stack offset. -/
def ofJson? : Json → Option Storage
  | array [string kind, value] => ofKind? kind value
  | object fields => do
    match ← knownFields? ["type", "value"] fields with
    | [("type", kind), ("value", value)] => ofKind? (← kind? kind) value
    | [("value", value), ("type", kind)] =>
      let kind ← kind? kind
      if kind = "stack" then none else ofKind? kind value
    | _ => none
  | _ => none

def toJson : Storage → Json
  | stack offset => object [("type", string "stack"), ("value", offset.toJson)]
  | register name => object [("type", string "register"), ("value", string name)]
  | global address => object [("type", string "global"), ("value", string address)]

end Storage

namespace Config

def EncodedType.ofJson? (j : Json) : Option EncodedType := do
  return ⟨← (← j.record? ["llvmIr"]).required? "llvmIr" string?⟩

def EncodedType.toJson (t : EncodedType) : Json := object [("llvmIr", string t.code)]

def Parameter.ofJson? (j : Json) : Option Parameter := do
  let fields ← j.record? ["name", "realName", "type"]
  return {
    name := ← fields.required? "name" string?
    realName := ← fields.required? "realName" string?
    type := ← fields.required? "type" EncodedType.ofJson? }

def Parameter.toJson (p : Parameter) : Json :=
  object [("name", string p.name), ("realName", string p.realName), ("type", p.type.toJson)]

def LocalVariable.ofJson? (j : Json) : Option LocalVariable := do
  let fields ← j.record? ["name", "realName", "storage", "type"]
  return {
    name := ← fields.required? "name" string?
    realName := ← fields.required? "realName" string?
    storage := ← fields.required? "storage" Storage.ofJson?
    type := ← fields.required? "type" EncodedType.ofJson? }

def LocalVariable.toJson (v : LocalVariable) : Json :=
  object [("name", string v.name), ("realName", string v.realName), ("storage", v.storage.toJson),
    ("type", v.type.toJson)]

def Function.ofJson? (j : Json) : Option Function := do
  let fields ← j.record?
    ["startAddr", "endAddr", "name", "realName", "callingConvention", "parameters", "locals",
      "returnType"]
  return {
    startAddress := ← fields.required? "startAddr" string?
    endAddress := ← fields.required? "endAddr" string?
    name := ← fields.required? "name" string?
    realName := ← fields.required? "realName" string?
    convention := ← fields.required? "callingConvention" string?
    parameters := ← fields.required? "parameters" (list? Parameter.ofJson?)
    locals := ← fields.required? "locals" (list? LocalVariable.ofJson?)
    returnType := ← fields.required? "returnType" EncodedType.ofJson? }

def Function.toJson (f : Function) : Json :=
  object [("startAddr", string f.startAddress), ("endAddr", string f.endAddress),
    ("name", string f.name), ("realName", string f.realName),
    ("callingConvention", string f.convention),
    ("parameters", ofList Parameter.toJson f.parameters),
    ("locals", ofList LocalVariable.toJson f.locals), ("returnType", f.returnType.toJson)]

def GlobalVariable.ofJson? (j : Json) : Option GlobalVariable := do
  let fields ← j.record? ["name", "storage"]
  return {
    name := ← fields.required? "name" string?
    storage := ← fields.required? "storage" Storage.ofJson? }

def GlobalVariable.toJson (g : GlobalVariable) : Json :=
  object [("name", string g.name), ("storage", g.storage.toJson)]

end Config

def Config.ofJson? (j : Json) : Option Config := do
  let fields ← j.record? ["functions", "globals"]
  return {
    functions := ← fields.orElse? "functions" [] (list? Config.Function.ofJson?)
    globals := ← fields.orElse? "globals" [] (list? Config.GlobalVariable.ofJson?) }

def Config.toJson (c : Config) : Json :=
  object [("functions", ofList Config.Function.toJson c.functions),
    ("globals", ofList Config.GlobalVariable.toJson c.globals)]

/-- A configuration as the text of its file, without the final newline. -/
def Config.text (c : Config) : String := c.toJson.pretty

end DecompConfig
