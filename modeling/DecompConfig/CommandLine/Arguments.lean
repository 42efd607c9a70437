namespace DecompConfig.CommandLine

/-- An option that a command understands. -/
structure OptionSpec where
  /-- The name after two hyphens. -/
  long : String
  /-- The letter after one hyphen. -/
  short : Option Char
  takesValue : Bool
  repeatable : Bool
  deriving DecidableEq

/-- What the arguments of a command may be. -/
structure Grammar where
  options : List OptionSpec
  /-- The number of arguments that are no options. -/
  positionals : Nat
  /-- Whether an argument that is no option may be a negative number. -/
  negativeNumbers : Bool

/-- An argument with its role; an option without a value has an empty one. -/
inductive Argument where
  | option (long : String) (value : String)
  | positional (value : String)
  deriving DecidableEq

/-- Arguments that have been recognized, and the option that still lacks its value. -/
abbrev Recognized := List Argument × Option OptionSpec

namespace Grammar

/-- Recognizes an option after two hyphens, which may bring its value after an equals sign. -/
def longOption? (g : Grammar) (body : List Char) : Option Recognized := do
  let name := String.ofList (body.takeWhile (· != '='))
  let spec ← g.options.find? (·.long == name)
  match body.dropWhile (· != '='), spec.takesValue with
  | [], true => some ([], some spec)
  | _ :: value, true => some ([.option spec.long (.ofList value)], none)
  | [], false => some ([.option spec.long ""], none)
  | _ :: _, false => none

/-- Recognizes the letters after one hyphen. An option that takes a value takes the rest of the
letters, if there are any; an equals sign in front of them is dropped. -/
def shortOptions? (g : Grammar) : List Char → Option Recognized
  | [] => some ([], none)
  | c :: rest => do
    let spec ← g.options.find? (·.short == some c)
    if spec.takesValue then
      match rest with
      | [] => some ([], some spec)
      | '=' :: value => some ([.option spec.long (.ofList value)], none)
      | value => some ([.option spec.long (.ofList value)], none)
    else
      let (arguments, pending) ← g.shortOptions? rest
      return (.option spec.long "" :: arguments, pending)

/-- The characters of a number without its sign: digits with at most one point after the first digit
and at most one exponent mark after the first digit and after the point. -/
def looksNumeric (seenPoint seenMark first : Bool) : List Char → Bool
  | [] => true
  | c :: rest =>
    if c.isDigit then looksNumeric seenPoint seenMark false rest
    else if c == '.' && !seenPoint && !seenMark && !first then looksNumeric true seenMark false rest
    else if (c == 'e' || c == 'E') && !seenMark && !first && !rest.isEmpty then
      looksNumeric seenPoint true false rest
    else false

/-- Gives every argument its role. An option that lacks its value takes the next argument, unless that
begins with a hyphen and more. Two hyphens alone end the options. -/
def recognize? (g : Grammar) : Option OptionSpec → List String → Option (List Argument)
  | none, [] => some []
  | some _, [] => none
  | pending, s :: rest =>
    let plain : Option (List Argument) :=
      match pending with
      | some spec => (g.recognize? none rest).map (.option spec.long s :: ·)
      | none => (g.recognize? none rest).map (.positional s :: ·)
    let options (recognized? : Option Recognized) : Option (List Argument) := do
      let (arguments, pending) ← recognized?
      return arguments ++ (← g.recognize? pending rest)
    match s.toList with
    | ['-', '-'] => if pending.isSome then none else some (rest.map .positional)
    | '-' :: '-' :: body => if pending.isSome then none else options (g.longOption? body)
    | '-' :: c :: body =>
      if g.negativeNumbers && looksNumeric false false true (c :: body) then plain
      else if pending.isSome then none
      else options (g.shortOptions? (c :: body))
    | _ => plain

end Grammar

/-- The arguments of a command by their roles. -/
structure Arguments where
  /-- The options with their values, in order. -/
  options : List (String × String)
  positionals : List String

namespace Arguments

def ofList : List Argument → Arguments
  | [] => ⟨[], []⟩
  | .option long value :: rest =>
    let more := ofList rest
    { more with options := (long, value) :: more.options }
  | .positional value :: rest =>
    let more := ofList rest
    { more with positionals := value :: more.positionals }

/-- The values of an option, in order. -/
def values (a : Arguments) (long : String) : List String :=
  (a.options.filter (·.1 == long)).map Prod.snd

/-- The value of an option that is given at most once. -/
def value? (a : Arguments) (long : String) : Option String := (a.values long).head?

def has (a : Arguments) (long : String) : Bool := !(a.values long).isEmpty

end Arguments

/-- Arguments that a command has been given so far, if its grammar allows them and no option is given
twice that may be given once. More of them may be still to come. -/
def Grammar.gather? (g : Grammar) (args : List String) : Option Arguments := do
  let a := Arguments.ofList (← g.recognize? none args)
  let once := g.options.all fun spec => spec.repeatable || (a.values spec.long).length ≤ 1
  if a.positionals.length ≤ g.positionals ∧ once then some a else none

/-- The arguments of a command, if they are as its grammar says. -/
def Grammar.parse? (g : Grammar) (args : List String) : Option Arguments := do
  let a ← g.gather? args
  if a.positionals.length = g.positionals then some a else none

end DecompConfig.CommandLine
