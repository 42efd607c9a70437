import DecompConfig.Text.Number

namespace DecompConfig

/-- A text without the occurrences of a marker, found from the left without overlaps. What stood on
both sides of an occurrence may form a new one, which stays. -/
def removeMarker (marker : List Char) : List Char → List Char
  | [] => []
  | c :: cs =>
    if marker.isPrefixOf (c :: cs) then removeMarker marker (cs.drop (marker.length - 1))
    else c :: removeMarker marker cs
termination_by s => s.length
decreasing_by all_goals simp only [List.length_drop, List.length_cons]; omega

/-- A digit with a hexadecimal digit after it begins an address. -/
def looksLikeAddress : List Char → Bool
  | first :: second :: _ => first.isDigit && (Text.digitValue? 16 second).isSome
  | _ => false

/-- The name of a symbol without the marker of its name space. -/
def symbolName (flagName : String) : String := .ofList (removeMarker "sym.".toList flagName.toList)

/-- The name of a function as an identifier: markers are removed, and what remains of a name that was
made from an address is given a letter in front. -/
def functionName (name : String) : String :=
  let cleaned := removeMarker "sym.".toList (removeMarker "fcn.".toList name.toList)
  if looksLikeAddress cleaned then "function_" ++ .ofList cleaned else .ofList cleaned

end DecompConfig
