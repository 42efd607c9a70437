import DecompConfig.Json.Basic

namespace DecompConfig.Json

def string? : Json → Option String
  | string s => some s
  | _ => none

/-- A natural number below `bound`. -/
def below? (bound : Nat) : Json → Option Nat
  | integer (.ofNat n) => if n < bound then some n else none
  | _ => none

def uint32? (j : Json) : Option UInt32 := (j.below? UInt32.size).map .ofNat

def uint64? (j : Json) : Option UInt64 := (j.below? UInt64.size).map .ofNat

def list? (item? : Json → Option α) : Json → Option (List α)
  | array items => items.mapM item?
  | _ => none

/-- A value that may be `null`. -/
def optional? (value? : Json → Option α) : Json → Option (Option α)
  | null => some none
  | j => (value? j).map some

def ofUInt64 (n : UInt64) : Json := integer n.toNat

def ofOption (f : α → Json) : Option α → Json
  | none => null
  | some a => f a

def ofList (f : α → Json) (l : List α) : Json := array (l.map f)

/-- The named parts of a record that are present, each once. -/
abbrev Fields := List (String × Json)

/-- The fields of an object whose names are known, none of which may be repeated. Others are passed
over. -/
def knownFields? (known : List String) (fields : Fields) : Option Fields :=
  let present := fields.filter fun field => known.contains field.1
  if (present.map Prod.fst).Nodup then some present else none

/-- The parts of a record: an object, or the array of the values of its fields in their order, of which
the last may be left out. -/
def record? (known : List String) : Json → Option Fields
  | object fields => knownFields? known fields
  | array items => if items.length ≤ known.length then some (known.zip items) else none
  | _ => none

namespace Fields

/-- A field that must be present. -/
def required? (fields : Fields) (name : String) (value? : Json → Option α) : Option α := do
  value? (← fields.lookup name)

/-- A field that stands for `absent` where it is not present. -/
def orElse? (fields : Fields) (name : String) (absent : α) (value? : Json → Option α) : Option α :=
  match fields.lookup name with
  | none => some absent
  | some j => value? j

end Fields

end DecompConfig.Json
