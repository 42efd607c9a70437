import DecompConfig.Json.Double

namespace DecompConfig

/-- A JSON value. Integers are numbers written without a fraction and an exponent; objects keep their
fields in the order of the text, repeated names included. -/
inductive Json where
  | null
  | bool (value : Bool)
  | integer (value : Int)
  /-- The number `-0`, which is no integer. -/
  | negativeZero
  /-- The number `mantissa * 10 ^ exponent`, written with a fraction or an exponent. -/
  | decimal (mantissa : Int) (exponent : Int)
  | string (value : String)
  | array (items : List Json)
  | object (fields : List (String × Json))
  /-- A value that can only be passed over: a string or a field name with half of a surrogate pair,
  or a container inside too many others. -/
  | unreadable

namespace Json

mutual

/-- The value can be held as a whole, with every part of it. -/
def isReadable : Json → Bool
  | unreadable => false
  | integer n => fitsDouble n 0
  | decimal m e => fitsDouble m e
  | array items => areReadable items
  | object fields => fieldsAreReadable fields
  | null | bool _ | negativeZero | string _ => true

def areReadable : List Json → Bool
  | [] => true
  | j :: js => j.isReadable && areReadable js

def fieldsAreReadable : List (String × Json) → Bool
  | [] => true
  | (_, j) :: fields => j.isReadable && fieldsAreReadable fields

end

end Json

end DecompConfig
