import DecompConfig.Text.Quoted

namespace DecompConfig

/-- Why a type has no encoding. -/
inductive LoweringError where
  /-- A name is neither a primitive nor a known aggregate. -/
  | unresolved (name : String)
  /-- The text of a definition is no member list between braces. -/
  | malformed (name : String) (response : String)
  /-- An aggregate is met while it is being expanded; the path starts at the outermost aggregate. -/
  | cyclic (name : String) (path : List String)
  /-- An aggregate is met while `limit` others are being expanded. -/
  | tooDeep (name : String) (limit : Nat)
  deriving Repr, DecidableEq

namespace LoweringError

def message : LoweringError → String
  | unresolved name => "unresolved type: " ++ name
  | malformed name response =>
    "malformed definition of aggregate `" ++ name ++ "`: " ++ Text.quoted response
  | cyclic name path =>
    "aggregate `" ++ name ++ "` contains itself: " ++ " -> ".intercalate path
  | tooDeep name limit =>
    "aggregate `" ++ name ++ "` exceeds the expansion depth limit of " ++ toString limit

end LoweringError

end DecompConfig
