import DecompConfig.Lowering.Error
import DecompConfig.Text.Blank

namespace DecompConfig

open Text

/-- An aggregate type: the declarations of its members in order, such as `char *name`. -/
structure Aggregate where
  members : List String
  deriving Repr, DecidableEq

def isBrace (c : Char) : Bool := c == '{' || c == '}'

/-- What stands between the first opening brace of a text and its last closing brace. -/
def betweenBraces? (s : List Char) : Option (List Char) :=
  match s.dropWhile (· != '{') with
  | [] => none
  | _ :: inner =>
    match inner.reverse.dropWhile (· != '}') with
    | [] => none
    | _ :: body => some body.reverse

namespace Aggregate

/-- The members of a list in which each member is ended or followed by a semicolon. -/
def membersOf (body : List Char) : List String :=
  (((pieces (· == ';') body).map trim).filter (!·.isEmpty)).map String.ofList

/-- Reads a definition such as `struct point {int x; int y;}`. The braces must not nest; what stands
before and after them is free. -/
def ofText? (text : String) : Option Aggregate := do
  let body ← betweenBraces? text.toList
  if body.any isBrace then none else some ⟨membersOf body⟩

/-- Reads the definition of the aggregate `name`. -/
def parse (name text : String) : Except LoweringError Aggregate :=
  match ofText? text with
  | some aggregate => .ok aggregate
  | none => .error (.malformed name text)

end Aggregate

end DecompConfig
