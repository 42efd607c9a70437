import DecompConfig.Aggregate
import DecompConfig.Run

namespace DecompConfig

/-- The answer to the question which aggregate a name denotes. -/
structure Answer where
  /-- The aggregate, nothing if the name denotes none, or why the answer cannot be used. -/
  definition : Except LoweringError (Option Aggregate)
  /-- The text that the definition is read from, if the answer was one. -/
  text : Option String

/-- A source of aggregates, whose answers may depend on what it was asked before. -/
def Oracle (σ : Type) : Type := String → σ → Answer × σ

namespace Oracle

variable {σ : Type}

/-- Asks for the aggregate called `name`. -/
def ask (oracle : Oracle σ) (name : String) : Run σ LoweringError (Option Aggregate) := fun s =>
  let a := oracle name s
  ⟨a.1.definition, a.2, .asked name :: (a.1.text.map (Event.answered name)).toList⟩

/-- The oracle that answers by a function of the name. -/
def ofFun (find? : String → Option Aggregate) : Oracle σ := fun name s => (⟨.ok (find? name), none⟩, s)

/-- What a textual answer says about `name`. A missing or blank text says that there is no such
aggregate. -/
def readText (name : String) : Option String → Answer
  | none => ⟨.ok none, none⟩
  | some text =>
    if (Text.trim text.toList).isEmpty then ⟨.ok none, none⟩
    else ⟨(Aggregate.parse name text).map some, some text⟩

/-- The oracle over a query that answers with texts such as `point {int x; int y;}`. -/
def ofQuery (query : String → σ → Option String × σ) : Oracle σ := fun name s =>
  let a := query name s
  (readText name a.1, a.2)

end Oracle

end DecompConfig
