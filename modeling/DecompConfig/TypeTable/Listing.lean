import DecompConfig.TypeTable

namespace DecompConfig

open Text

/-- What may stand between two definitions of a listing. -/
def isSeparator (c : Char) : Bool := c == ';' || isBlank c

theorem length_dropWhile_le (p : Char → Bool) (s : List Char) : (s.dropWhile p).length ≤ s.length :=
  (List.dropWhile_sublist p).length_le

/-- Cuts a listing after each closing brace; a rest without one is a block too. -/
def blocksFrom (s : List Char) : List (List Char) :=
  match _h : s.dropWhile (· != '}') with
  | [] => if s.isEmpty then [] else [s]
  | close :: rest =>
    (s.takeWhile (· != '}') ++ [close]) :: blocksFrom (rest.dropWhile isSeparator)
termination_by s.length
decreasing_by
  have h₁ := length_dropWhile_le (· != '}') s
  have h₂ := length_dropWhile_le isSeparator rest
  rw [_h, List.length_cons] at h₁
  omega

/-- The definitions of a listing such as `struct point {int x; int y;}; struct line {...};`. -/
def blocks (listing : String) : List String :=
  (blocksFrom (trimStart listing.toList)).map String.ofList

/-- The name that a definition defines: the last word before its opening brace. -/
def definedName (text : String) : String :=
  .ofList ((words (text.toList.takeWhile (· != '{'))).getLast?.getD [])

namespace TypeTable

/-- Adds a definition such as `struct point {int x; int y;}` and tells the name that it defines. -/
def addDefinition (table : TypeTable) (text : String) : Except LoweringError (String × TypeTable) :=
  do
    let name := definedName text
    return (name, table.insert name (← Aggregate.parse name text))

theorem addDefinition_of_some (table : TypeTable) {text : String} {aggregate : Aggregate}
    (h : Aggregate.ofText? text = some aggregate) :
    table.addDefinition text = .ok (definedName text, table.insert (definedName text) aggregate) := by
  rw [addDefinition, Aggregate.parse, h]
  rfl

theorem addDefinition_of_none (table : TypeTable) {text : String}
    (h : Aggregate.ofText? text = none) :
    table.addDefinition text = .error (.malformed (definedName text) text) := by
  rw [addDefinition, Aggregate.parse, h]
  rfl

/-- Adds definitions one after the other up to the first that is malformed. The definitions before it
stay in the table. -/
def addBlocks (table : TypeTable) :
    List String → TypeTable × Except LoweringError (List String)
  | [] => (table, .ok [])
  | block :: rest =>
    match table.addDefinition block with
    | .error e => (table, .error e)
    | .ok (name, table) =>
      let (table, names) := table.addBlocks rest
      (table, names.map (name :: ·))

/-- Adds the definitions of a listing and tells the names that they define, in order. -/
def addDefinitions (table : TypeTable) (listing : String) :
    TypeTable × Except LoweringError (List String) :=
  table.addBlocks (blocks listing)

end TypeTable

namespace Aggregate

/-- The definition of an aggregate as lines of C source, one member a line. -/
def lines (label : String) (aggregate : Aggregate) : List String :=
  ("struct " ++ label ++ " \x7b") ::
    (aggregate.members.map fun member => "    " ++ member ++ ";") ++ ["\x7d"]

/-- The definition of an aggregate as C source. -/
def listing (label : String) (aggregate : Aggregate) : String :=
  String.join ((aggregate.lines label).map (· ++ "\n"))

end Aggregate

end DecompConfig
