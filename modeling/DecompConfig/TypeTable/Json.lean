import DecompConfig.Json.Reading
import DecompConfig.Json.Record
import DecompConfig.Json.Writing
import DecompConfig.TypeTable

namespace DecompConfig

open Json

def Aggregate.ofJson? (j : Json) : Option Aggregate := (j.list? string?).map Aggregate.mk

def Aggregate.toJson (aggregate : Aggregate) : Json := ofList string aggregate.members

namespace TypeTable

/-- The entries of an object from names to member lists, in the order of the text. -/
def entriesOfJson? : Json → Option (List (String × Aggregate))
  | object fields => fields.mapM fun (name, j) => (Aggregate.ofJson? j).map (name, ·)
  | _ => none

/-- The definitions of an object by its names as they are written. Of a repeated name the last
definition counts. -/
def ofRawJson? (j : Json) : Option (NameMap Aggregate) :=
  (entriesOfJson? j).map NameMap.empty.insertAll

/-- Reads a table whose names are kept as they are written. -/
def ofVerbatimText? (text : String) : Option TypeTable := do
  return ⟨← ofRawJson? (← parse? text)⟩

/-- Reads a table. Of the spellings of one bare name the greatest counts. -/
def ofText? (text : String) : Option TypeTable := do
  return empty.insertAll (← ofRawJson? (← parse? text)).entries

def toJson (table : TypeTable) : Json :=
  object (table.aggregates.entries.map fun (name, aggregate) => (name, aggregate.toJson))

/-- A table as the text that `ofText?` reads. -/
def text (table : TypeTable) : String := table.toJson.pretty

end TypeTable

end DecompConfig
