import DecompConfig.Json.Lexeme

namespace DecompConfig.Json

/-- An open container with complete entries, the last one first. A field name is missing where it
cannot be held. -/
inductive Entries where
  | array (items : List Json)
  | object (fields : List (Option String × Json))

/-- A container that waits for the value of an item or of a field. -/
inductive Frame where
  | item (items : List Json)
  | field (fields : List (Option String × Json)) (name : Option String)

/-- Where a reader stands in a text. The containers around it are listed from the inside out. -/
inductive Reader where
  /-- A value must follow. -/
  | value (stack : List Frame)
  /-- A container has just been opened. -/
  | opened (entries : Entries) (stack : List Frame)
  /-- An entry has just ended. -/
  | entry (entries : Entries) (stack : List Frame)
  /-- The name of a further field must follow. -/
  | further (fields : List (Option String × Json)) (stack : List Frame)
  /-- The colon after a field name must follow. -/
  | colon (fields : List (Option String × Json)) (name : Option String) (stack : List Frame)
  /-- The text is complete. -/
  | done (value : Json)

/-- The greatest number of containers inside one another that can be held. -/
def maxNesting : Nat := 127

/-- The value of a container that ends. -/
def Entries.toJson : Entries → Json
  | .array items => .array items.reverse
  | .object fields =>
    match fields.mapM fun (name, j) => name.map (·, j) with
    | some fields => .object fields.reverse
    | none => .unreadable

namespace Reader

/-- A value has ended. -/
def put (j : Json) : List Frame → Reader
  | [] => done j
  | .item items :: stack => entry (.array (j :: items)) stack
  | .field fields name :: stack => entry (.object ((name, j) :: fields)) stack

/-- A container has ended. It can be held if fewer than `maxNesting` containers are around it. -/
def close (entries : Entries) (stack : List Frame) : Reader :=
  put (if (stack.drop (maxNesting - 1)).isEmpty then entries.toJson else .unreadable) stack

theorem close_eq (entries : Entries) (stack : List Frame) :
    close entries stack =
      put (if stack.length < maxNesting then entries.toJson else .unreadable) stack := by
  have h : (stack.drop (maxNesting - 1)).isEmpty = true ↔ stack.length < maxNesting := by
    rw [List.isEmpty_iff, List.drop_eq_nil_iff, maxNesting]
    omega
  simp only [close, h]

/-- A value begins. -/
def start (stack : List Frame) : Lexeme → Option Reader
  | .scalar j => some (put j stack)
  | .string s => some (put (s.elim .unreadable .string) stack)
  | .openArray => some (opened (.array []) stack)
  | .openObject => some (opened (.object []) stack)
  | _ => none

/-- One lexeme further, unless the lexeme cannot stand here. -/
def step : Reader → Lexeme → Option Reader
  | value stack, x => start stack x
  | opened (.array items) stack, .closeArray => some (close (.array items) stack)
  | opened (.array items) stack, x => start (.item items :: stack) x
  | opened (.object fields) stack, .closeObject => some (close (.object fields) stack)
  | opened (.object fields) stack, .string s => some (colon fields s stack)
  | entry (.array items) stack, .closeArray => some (close (.array items) stack)
  | entry (.array items) stack, .comma => some (value (.item items :: stack))
  | entry (.object fields) stack, .closeObject => some (close (.object fields) stack)
  | entry (.object fields) stack, .comma => some (further fields stack)
  | further fields stack, .string s => some (colon fields s stack)
  | colon fields s stack, .colon => some (value (.field fields s :: stack))
  | _, _ => none

/-- The value that has been read, if the text is complete. -/
def result? : Reader → Option Json
  | done j => some j
  | _ => none

end Reader

/-- The value of a sequence of lexemes. -/
def ofLexemes? (xs : List Lexeme) : Option Json := do
  (← xs.foldlM Reader.step (.value [])).result?

/-- The value of a JSON text. -/
def parse? (text : String) : Option Json := do ofLexemes? (← lexemes? text.toList)

end DecompConfig.Json
