import DecompConfig.NameMap
import DecompConfig.Oracle

namespace DecompConfig

open Text

/-- The name of an aggregate without the blanks around it and without the keyword in front of it, so
that `struct point` and `point` are one name. -/
def bareName (name : String) : String :=
  let s := trim name.toList
  match s with
  | 's' :: 't' :: 'r' :: 'u' :: 'c' :: 't' :: c :: rest =>
    .ofList (if isBlank c then trimStart rest else s)
  | _ => .ofList s

/-- Aggregates by their bare names. -/
structure TypeTable where
  aggregates : NameMap Aggregate
  deriving DecidableEq

namespace TypeTable

def empty : TypeTable := ⟨.empty⟩

/-- Defines `name`, in place of what it was defined as before. -/
def insert (table : TypeTable) (name : String) (aggregate : Aggregate) : TypeTable :=
  ⟨table.aggregates.insert (bareName name) aggregate⟩

def get? (table : TypeTable) (name : String) : Option Aggregate :=
  table.aggregates.get? (bareName name)

def contains (table : TypeTable) (name : String) : Bool := (table.get? name).isSome

/-- The defined names in increasing order. -/
def names (table : TypeTable) : List String := table.aggregates.names

def size (table : TypeTable) : Nat := table.aggregates.size

/-- Both tables together, where the definitions of `other` win. -/
def merge (table other : TypeTable) : TypeTable := ⟨table.aggregates.merge other.aggregates⟩

/-- Defines the aggregates of a list one after the other. -/
def insertAll (table : TypeTable) (entries : List (String × Aggregate)) : TypeTable :=
  entries.foldl (fun table entry => table.insert entry.1 entry.2) table

/-- A table as a source of aggregates. -/
def oracle {σ : Type} (table : TypeTable) : Oracle σ := .ofFun table.get?

theorem get?_insert (table : TypeTable) (name : String) (aggregate : Aggregate) (other : String) :
    (table.insert name aggregate).get? other =
      if bareName other = bareName name then some aggregate else table.get? other :=
  NameMap.get?_insert ..

end TypeTable

end DecompConfig
