import DecompConfig.Lowering.Error

namespace DecompConfig

/-- What a type belongs to in a function. -/
inductive Subject where
  | parameter (name : String) (function : String)
  | localVariable (name : String) (function : String)
  | returnValue (function : String)
  deriving Repr, DecidableEq

def Subject.text : Subject → String
  | parameter name function => "parameter `" ++ name ++ "` of `" ++ function ++ "`"
  | localVariable name function => "variable `" ++ name ++ "` of `" ++ function ++ "`"
  | returnValue function => "return value of `" ++ function ++ "`"

/-- Why a function cannot be converted: the type of one of its parts has no encoding. -/
structure ConversionError where
  subject : Subject
  cause : LoweringError
  deriving Repr, DecidableEq

def ConversionError.message (e : ConversionError) : String :=
  "cannot lower type of " ++ e.subject.text ++ ": " ++ e.cause.message

end DecompConfig
