import DecompConfig.CommandLine.Command

namespace DecompConfig.CommandLine

/-- The names that may follow the names of a command. -/
def subcommands : (level : List String) → List String
  | [] => ["lower", "offset", "callconv", "config", "types", "help"]
  | ["types"] => ["builtin", "list", "show", "help"]
  | _ => []

/-- The grammar of a command that has no subcommands. -/
def grammar? : (level : List String) → Option Grammar
  | [name] => commandGrammar? name
  | ["types", name] => typesGrammar? name
  | _ => none

/-- The option that asks for help. -/
def helpOption : OptionSpec := ⟨"help", some 'h', false, false⟩

/-- Asks for more detail, and for nothing else. -/
def isVerbose (s : String) : Bool :=
  s == "--verbose" ||
    match s.toList with
    | '-' :: c :: letters => (c :: letters).all (· == 'v')
    | _ => false

/-- Asks for help. In a group of letters the first one that is no request for more detail decides. -/
def asksForHelp (s : String) : Bool :=
  s == "--help" ||
    match s.toList with
    | '-' :: letters => (letters.dropWhile (· == 'v')).head? == some 'h'
    | _ => false

/-- The arguments hold values of the kinds that the command called `name` takes. -/
def hasValues (name : String) (a : Arguments) : Bool :=
  (typeSource? a).isSome && (wordSize? a).isSome &&
    (["symbols", "flags", "output"].all fun long => (path? a long).isSome) &&
    a.positionals.all fun s =>
      match name with
      | "offset" => (RawOffset.parse s).toOption.isSome
      | "config" => s != ""
      | _ => true

/-- Whether the arguments of the command called `name` come to a request for help before anything
that is not allowed. Arguments that are still missing do not matter, and neither does what follows. -/
def Grammar.comesToHelp (g : Grammar) (name : String) (args : List String) : Bool :=
  let before := args.takeWhile (!asksForHelp ·)
  before.length < args.length && !before.contains "--" &&
    ((g.gather? before).filter (hasValues name)).isSome

/-- The command that the names after the word `help` lead to. -/
def topic? (level : List String) : List String → Option (List String)
  | [] => some level
  | name :: names => if name ∈ subcommands level then topic? (level ++ [name]) names else none

/-- The command that arguments ask for help on, by its names, where the names in `level` stand in front
of them. No names stand for the whole program. -/
def helpTopic? (level : List String) : List String → Option (List String)
  | [] => none
  | s :: args =>
    if isVerbose s then helpTopic? level args
    else if asksForHelp s then some level
    else if s = "help" then topic? level args
    else if s ∈ subcommands level then
      match grammar? (level ++ [s]) with
      | some g => if g.comesToHelp s args then some (level ++ [s]) else none
      | none => helpTopic? (level ++ [s]) args
    else none

/-- What a command is for. -/
def purpose : (topic : List String) → String
  | ["lower"] => "Lower a C type string into the flattened type encoding"
  | ["offset"] => "Normalize a raw stack offset"
  | ["callconv"] => "Translate a calling convention name"
  | ["config"] => "Build the decompiler configuration from exported metadata"
  | ["types"] => "Inspect aggregate type tables"
  | ["types", "builtin"] => "List builtin aggregate sets"
  | ["types", "list"] => "List aggregate names"
  | ["types", "show"] => "Show the members of an aggregate"
  | ["help"] | ["types", "help"] => "Print help on the program or on a command"
  | _ => "Decompiler configuration from binary-analysis metadata"

/-- An option as help lists it. -/
def OptionSpec.synopsis (spec : OptionSpec) : String :=
  let short := spec.short.elim "" fun c => .ofList ['-', c, ',', ' ']
  short ++ "--" ++ spec.long ++ (if spec.takesValue then " <value>" else "")

/-- Lines under a heading, which is left out with them. -/
def helpSection (heading : String) : List String → String
  | [] => ""
  | lines => "\n" ++ heading ++ ":\n" ++ .join (lines.map fun line => "  " ++ line ++ "\n")

/-- The help on a command. -/
def helpText (topic : List String) : String :=
  let options := (grammar? topic).elim [verboseOption] (·.options)
  purpose topic ++ "\n\nUsage: " ++ " ".intercalate ("decomp-config" :: topic) ++
    (if (subcommands topic).isEmpty then " [options] [arguments]\n" else " [options] <command>\n") ++
    helpSection "Commands"
      ((subcommands topic).map fun name => name ++ "  " ++ purpose (topic ++ [name])) ++
    helpSection "Options" ((options ++ [helpOption]).map OptionSpec.synopsis)

end DecompConfig.CommandLine
