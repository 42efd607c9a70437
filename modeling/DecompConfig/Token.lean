namespace DecompConfig

/-- The words of a C type that leave no trace in its encoding. -/
inductive Qualifier where
  | const | struct | unsigned | signed
  deriving Repr, DecidableEq

namespace Qualifier

def word : Qualifier → String
  | const => "const"
  | struct => "struct"
  | unsigned => "unsigned"
  | signed => "signed"

def ofWord? : String → Option Qualifier
  | "const" => some const
  | "struct" => some struct
  | "unsigned" => some unsigned
  | "signed" => some signed
  | _ => none

/-- Sign keywords can stand for `int` on their own. -/
def isSign : Qualifier → Bool
  | unsigned | signed => true
  | const | struct => false

theorem ofWord?_word (q : Qualifier) : ofWord? q.word = some q := by cases q <;> rfl

theorem word_of_ofWord? {w : String} {q : Qualifier} (h : ofWord? w = some q) : q.word = w := by
  unfold ofWord? at h
  split at h <;> simp_all [word] <;> subst h <;> rfl

end Qualifier

/-- A word of a C type: every word that is no qualifier, no run of stars and no punctuation mark is a
name, the primitive type words included. -/
inductive Token where
  | qualifier (q : Qualifier)
  | name (word : String)
  | stars (count : Nat)
  | openBrace
  | closeBrace
  | comma
  deriving Repr, DecidableEq

namespace Token

/-- The spelling of a token. -/
def text : Token → String
  | qualifier q => q.word
  | name word => word
  | stars count => String.ofList (List.replicate count '*')
  | openBrace => "\x7b"
  | closeBrace => "\x7d"
  | comma => ","

/-- The token that a word without blanks spells. No word is refused. -/
def ofWord (word : String) : Token :=
  match Qualifier.ofWord? word with
  | some q => qualifier q
  | none =>
    if word = openBrace.text then openBrace
    else if word = closeBrace.text then closeBrace
    else if word = comma.text then comma
    else if word ≠ "" ∧ word.toList.all (· == '*') then stars word.length
    else name word

end Token

end DecompConfig
