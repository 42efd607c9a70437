import DecompConfig.Json.Basic
import DecompConfig.Text.Number

namespace DecompConfig.Json

/-- The digits of the escape of a control character. -/
def controlDigits (c : Char) : List Char :=
  '0' :: '0' :: Nat.digitChar (c.toNat / 16) :: [Nat.digitChar (c.toNat % 16)]

/-- One character between the quotes of a string. Only the quote, the backslash and the control
characters below the space are escaped. -/
def escapeChar (c : Char) : List Char :=
  match c with
  | '"' => ['\\', '"']
  | '\\' => ['\\', '\\']
  | '\x08' => ['\\', 'b']
  | '\x0c' => ['\\', 'f']
  | '\n' => ['\\', 'n']
  | '\r' => ['\\', 'r']
  | '\t' => ['\\', 't']
  | c => if c < ' ' then '\\' :: 'u' :: controlDigits c else [c]

def writeString (s : String) : List Char := '"' :: s.toList.flatMap escapeChar ++ ['"']

/-- Where a text is broken and spaced. -/
structure Layout where
  /-- What stands before an entry of a container, or before its end, at a nesting depth. -/
  breakLine : Nat → List Char
  /-- What stands between a field name and its value. -/
  colon : List Char

/-- No blanks at all. -/
def Layout.compact : Layout := ⟨fun _ => [], [':']⟩

/-- One entry a line, indented by two spaces for every level. -/
def Layout.pretty : Layout := ⟨fun depth => '\n' :: List.replicate (2 * depth) ' ', [':', ' ']⟩

mutual

/-- The text of a value at a nesting depth. -/
def write (l : Layout) (depth : Nat) : Json → List Char
  | null => ['n', 'u', 'l', 'l']
  | bool true => ['t', 'r', 'u', 'e']
  | bool false => ['f', 'a', 'l', 's', 'e']
  | integer n => Text.decimal n
  | negativeZero => ['-', '0']
  | decimal m e => Text.decimal m ++ 'e' :: Text.decimal e
  | string s => writeString s
  | array [] => ['[', ']']
  | array (j :: js) =>
    '[' :: l.breakLine (depth + 1) ++ j.write l (depth + 1) ++ writeItems l (depth + 1) js
      ++ l.breakLine depth ++ [']']
  | object [] => ['{', '}']
  | object ((name, j) :: fields) =>
    '{' :: l.breakLine (depth + 1) ++ writeString name ++ l.colon ++ j.write l (depth + 1)
      ++ writeFields l (depth + 1) fields ++ l.breakLine depth ++ ['}']
  | unreadable => ['"', '\\', 'u', 'd', '8', '0', '0', '"']

/-- The items after the first of an array. -/
def writeItems (l : Layout) (depth : Nat) : List Json → List Char
  | [] => []
  | j :: js => ',' :: l.breakLine depth ++ j.write l depth ++ writeItems l depth js

/-- The fields after the first of an object. -/
def writeFields (l : Layout) (depth : Nat) : List (String × Json) → List Char
  | [] => []
  | (name, j) :: fields =>
    ',' :: l.breakLine depth ++ writeString name ++ l.colon ++ j.write l depth
      ++ writeFields l depth fields

end

/-- The text of a value on one line. -/
def compact (j : Json) : String := .ofList (j.write .compact 0)

/-- The text of a value with an entry a line. -/
def pretty (j : Json) : String := .ofList (j.write .pretty 0)

end DecompConfig.Json
