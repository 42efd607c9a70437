import DecompConfig.Text.Hidden

namespace DecompConfig.Text

/-- How one character is shown between double quotes: the quote and the backslash are preceded by a
backslash, and a hidden character is named by its code point in hexadecimal. -/
def quotedChar (c : Char) : List Char :=
  match c with
  | '\x00' => ['\\', '0']
  | '\t' => ['\\', 't']
  | '\n' => ['\\', 'n']
  | '\r' => ['\\', 'r']
  | '"' => ['\\', '"']
  | '\\' => ['\\', '\\']
  | c => if isHidden c then ['\\', 'u', '{'] ++ Nat.toDigits 16 c.toNat ++ ['}'] else [c]

/-- A text between double quotes on one line, with every character made visible. -/
def quoted (s : String) : String :=
  String.ofList ('"' :: s.toList.flatMap quotedChar ++ ['"'])

end DecompConfig.Text
