import DecompConfig.Primitive
import DecompConfig.Token

namespace DecompConfig

/-- A token list with its qualifiers dropped and its primitive spellings recognized: each part but an
aggregate has its final text. -/
inductive Part where
  | primitive (p : Primitive)
  | aggregate (name : String)
  | stars (count : Nat)
  | openBrace
  | closeBrace
  | comma
  deriving Repr, DecidableEq

/-- Takes from the front of the tokens the words that still belong to the primitive `p`. Qualifiers
among and after them belong to the same spelling, as in `long unsigned int`. -/
def Primitive.munch (p : Primitive) : List Token → Primitive × List Token
  | .qualifier _ :: ts => p.munch ts
  | .name word :: ts =>
    match p.extend? word with
    | some q => q.munch ts
    | none => (p, .name word :: ts)
  | ts => (p, ts)

theorem Primitive.length_munch_le (p : Primitive) (ts : List Token) :
    (p.munch ts).2.length ≤ ts.length := by
  fun_induction Primitive.munch p ts with
  | case1 p q ts ih => simp only [List.length_cons]; omega
  | case2 p word ts q h ih => simp only [List.length_cons]; omega
  | case3 => simp
  | case4 => simp

/-- What a sign keyword stands for where no type word follows it. -/
def signPart (pendingSign : Bool) : List Part := if pendingSign then [.primitive .i32] else []

/-- The parts of a token list, where `pendingSign` tells that a sign keyword waits for a type word. -/
def parts (pendingSign : Bool) : List Token → List Part
  | [] => signPart pendingSign
  | .qualifier q :: ts => parts (pendingSign || q.isSign) ts
  | .name word :: ts =>
    match Primitive.ofWord? word with
    | some p => .primitive (p.munch ts).1 :: parts false (p.munch ts).2
    | none => .aggregate word :: parts false ts
  | .stars count :: ts => signPart pendingSign ++ .stars count :: parts false ts
  | .openBrace :: ts => signPart pendingSign ++ .openBrace :: parts false ts
  | .closeBrace :: ts => signPart pendingSign ++ .closeBrace :: parts false ts
  | .comma :: ts => signPart pendingSign ++ .comma :: parts false ts
termination_by ts => ts.length
decreasing_by
  all_goals simp only [List.length_cons]
  all_goals first
    | omega
    | have := p.length_munch_le ts; omega

end DecompConfig
