import DecompConfig.Primitive
import DecompConfig.Text.Blank
import DecompConfig.Text.WordChar
import DecompConfig.Token

namespace DecompConfig

open Text

/-- Writes a space between every two neighbours that `apart` keeps apart. -/
def spaced (apart : Char → Char → Bool) : List Char → List Char
  | a :: b :: rest =>
    if apart a b then a :: ' ' :: spaced apart (b :: rest) else a :: spaced apart (b :: rest)
  | rest => rest

/-- A name ends where stars begin. -/
def starsAfterName (a b : Char) : Bool := isWordChar a && b == '*'

/-- Stars end where a name begins. -/
def nameAfterStars (a b : Char) : Bool := a == '*' && isWordChar b

/-- The tokens of a character sequence, whose names may touch the stars that follow them. -/
def tokensOf (s : List Char) : List Token :=
  (words (spaced starsAfterName s)).map fun word => .ofWord (.ofList word)

/-- The tokens of a type as an analysis tool writes it. -/
def typeTokens (type : String) : List Token := tokensOf type.toList

/-- Tokens that give a declaration its type: a bare sign keyword is one, as it stands for `int`. -/
def Token.isTypeWord : Token → Bool
  | .name _ | .stars _ => true
  | .qualifier q => q.isSign
  | _ => false

/-- Tokens that can be the declared name at the end of a member declaration. -/
def Token.isDeclarator : Token → Bool
  | .name word => (Primitive.ofWord? word).isNone
  | _ => false

/-- A member declaration without its declared name. The last token is such a name if it can be one
and the tokens before it already give a type, so that `unsigned long` and `struct point` stay whole
while `unsigned flags` loses its second word. -/
def dropDeclarator (tokens : List Token) : List Token :=
  match tokens.getLast? with
  | some last =>
    if last.isDeclarator && tokens.dropLast.any Token.isTypeWord then tokens.dropLast else tokens
  | none => tokens

/-- The tokens of the type of a member declaration such as `char *name`. -/
def memberTokens (declaration : String) : List Token :=
  dropDeclarator (tokensOf (spaced nameAfterStars declaration.toList))

end DecompConfig
