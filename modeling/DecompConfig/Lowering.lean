import DecompConfig.Lowering.Part
import DecompConfig.Oracle
import DecompConfig.Token.Reading

namespace DecompConfig

/-- The members of an aggregate in its encoding. -/
def commaSeparated : List String → String
  | [] => ""
  | [s] => s
  | s :: t :: rest => s ++ "," ++ commaSeparated (t :: rest)

/-- An aggregate of encoded members. -/
def braced (members : List String) : String := "\x7b" ++ commaSeparated members ++ "\x7d"

namespace Lowering

variable {σ : Type}

/-- The encoding of one part, where `expand` encodes the aggregates. -/
def lowerPart (expand : String → Run σ LoweringError String) : Part → Run σ LoweringError String
  | .primitive p => pure p.code
  | .aggregate name => expand name
  | .stars count => pure (Token.stars count).text
  | .openBrace => pure Token.openBrace.text
  | .closeBrace => pure Token.closeBrace.text
  | .comma => pure Token.comma.text

/-- The encodings of the parts of a type, one after the other. -/
def lowerParts (expand : String → Run σ LoweringError String) :
    List Part → Run σ LoweringError String
  | [] => pure ""
  | p :: ps => do return (← lowerPart expand p) ++ (← lowerParts expand ps)

/-- The encodings of the members of an aggregate. -/
def lowerMembers (expand : String → Run σ LoweringError String) :
    List String → Run σ LoweringError (List String)
  | [] => pure []
  | m :: ms => do
    return (← lowerParts expand (parts false (memberTokens m))) :: (← lowerMembers expand ms)

/-- The encoding of the aggregate `name` inside the aggregates of `path`, the outermost first, where
`room` more aggregates may be opened. Aggregates are written out in full, also behind a pointer, so an
aggregate that is reached from itself has no encoding. -/
def expand (oracle : Oracle σ) (limit : Nat) :
    (room : Nat) → (path : List String) → (name : String) → Run σ LoweringError String
  | 0, path, name =>
    if name ∈ path then .fail (.cyclic name (path ++ [name])) else .fail (.tooDeep name limit)
  | room + 1, path, name =>
    if name ∈ path then .fail (.cyclic name (path ++ [name]))
    else do
      match ← oracle.ask name with
      | none => .fail (.unresolved name)
      | some aggregate =>
        return braced (← lowerMembers (expand oracle limit room (path ++ [name])) aggregate.members)

end Lowering

/-- The number of aggregates that may be open at the same time unless another number is asked for. -/
def defaultDepth : Nat := 64

variable {σ : Type}

/-- The encoding of a token list, with at most `depth` aggregates open at the same time. -/
def lowerTokens (oracle : Oracle σ) (depth : Nat) (tokens : List Token) :
    Run σ LoweringError String :=
  Lowering.lowerParts (Lowering.expand oracle depth depth []) (parts false tokens)

/-- The encoding of a type. -/
def lowerType (oracle : Oracle σ) (depth : Nat) (type : String) : Run σ LoweringError String :=
  lowerTokens oracle depth (typeTokens type)

end DecompConfig
