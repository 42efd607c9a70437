import DecompConfig.Analysis.Json
import DecompConfig.CommandLine.Help
import DecompConfig.CommandLine.Report
import DecompConfig.Config.Building
import DecompConfig.Config.Json
import DecompConfig.TypeTable.Builtin
import DecompConfig.TypeTable.Json
import DecompConfig.TypeTable.Listing

namespace DecompConfig.CommandLine

/-- The files around a command. -/
structure Files where
  /-- The contents of a file that can be read and is a text. -/
  read? : String → Option String
  /-- Whether a file can be written. -/
  canWrite : String → Bool

namespace Files

/-- Reads a file; `what` says what it holds. -/
def read (files : Files) (what path : String) : Except Report String :=
  match files.read? path with
  | some text => .ok text
  | none => .error ⟨"Failed to read " ++ what ++ ": " ++ path, []⟩

/-- Reads a JSON list of records. -/
def readRecords (files : Files) (what : String) (record? : Json → Option α) (path : String) :
    Except Report (List α) := do
  match (Json.parse? (← files.read what path)).bind (Json.list? record?) with
  | some records => .ok records
  | none => .error ⟨"Failed to parse " ++ what ++ ": " ++ path, []⟩

/-- Reads a list of records that may be missing. -/
def readOptional (files : Files) (what : String) (record? : Json → Option α) :
    Option String → Except Report (List α)
  | none => .ok []
  | some path => files.readRecords what record? path

end Files

namespace TypeSource

/-- Adds builtin sets one after the other. -/
def addBuiltin (table : TypeTable) : List String → Except Report TypeTable
  | [] => .ok table
  | set :: rest =>
    match TypeTable.builtin? set with
    | some builtin => addBuiltin (table.merge builtin) rest
    | none =>
      .error ⟨"Unknown builtin set '" ++ set ++ "'. Use: " ++ ", ".intercalate TypeTable.builtinSets, []⟩

def addListing (files : Files) (table : TypeTable) : Option String → Except Report TypeTable
  | none => .ok table
  | some path => do
    match table.addDefinitions (← files.read "definitions" path) with
    | (table, .ok _) => .ok table
    | (_, .error e) => .error ⟨"Failed to parse definitions: " ++ path, [e.message]⟩

def addTable (files : Files) (table : TypeTable) : Option String → Except Report TypeTable
  | none => .ok table
  | some path => do
    match TypeTable.ofText? (← files.read "type table" path) with
    | some other => .ok (table.merge other)
    | none => .error ⟨"Failed to parse type table: " ++ path, []⟩

/-- The table of a source: builtin sets, then the listing, then the JSON table, where later
definitions win. -/
def load (source : TypeSource) (files : Files) : Except Report TypeTable := do
  let table ← addBuiltin .empty source.builtin
  let table ← addListing files table source.definitions
  addTable files table source.types

end TypeSource

/-- The standard output that a command finds. -/
structure Console where
  /-- Whether a text is taken behind those that have been taken. It is taken as a whole or not at all. -/
  takes : (taken text : String) → Bool
  /-- Whether what is written to the file at a path goes to the standard output. -/
  isAt : (path : String) → Bool

namespace Console

/-- The standard output that takes every text. -/
def accepting : Console := ⟨fun _ _ => true, (· == "/dev/stdout")⟩

/-- The standard output that takes no text. -/
def refusing : Console := { accepting with takes _ _ := false }

end Console

/-- What a command works on: the files around it, the standard output with the text that it has taken,
and the files that have been written, with their contents. -/
structure World where
  files : Files
  console : Console
  stdout : String
  written : List (String × String)

/-- The world that a command line finds. -/
def World.initial (console : Console) (files : Files) : World := ⟨files, console, "", []⟩

/-- A command or a part of one. What it has printed and written stays when it fails. -/
abbrev Action := Run World Failure

namespace Action

/-- Consults the files. -/
def consult (find : Files → Except Report α) : Action α := fun w =>
  ⟨(find w.files).mapError .reported, w, []⟩

/-- Computes something apart from the world; `report` tells what an error means for the command. -/
def compute (x : Run Unit ε α) (report : ε → Report) : Action α := fun w =>
  let o := x ()
  ⟨o.result.mapError fun e => .reported (report e), w, o.events⟩

/-- Puts a text on the standard output, or fails as `failure` tells. -/
def print (text : String) (failure : Failure) : Action Unit := fun w =>
  if w.console.takes w.stdout text then ⟨.ok (), { w with stdout := w.stdout ++ text }, []⟩
  else ⟨.error failure, w, []⟩

def printLine (line : String) : Action Unit := print (line ++ "\n") .refused

def printLines : List String → Action Unit
  | [] => pure ()
  | line :: lines => do
    printLine line
    printLines lines

/-- Writes a file in place of what it held before, or leaves it as it was. -/
def writeFile (path content : String) : Action Unit := fun w =>
  let failure := .reported ⟨"Failed to write config: " ++ path, []⟩
  if w.console.isAt path then print content failure w
  else if w.files.canWrite path then
    ⟨.ok (), { w with written := w.written ++ [(path, content)] }, []⟩
  else ⟨.error failure, w, []⟩

end Action

open CommandLine.Action

/-- The lines under a title. -/
def headed (title : String) (lines : List String) : List String :=
  title :: .ofList (List.replicate 40 '=') :: lines

/-- A name as it is shown over the members of its aggregate. -/
def shownName (name : String) : String := .ofList (Text.trim (withoutKeyword name.toList))
where
  withoutKeyword : List Char → List Char
    | 's' :: 't' :: 'r' :: 'u' :: 'c' :: 't' :: ' ' :: rest => withoutKeyword rest
    | s => s

def lowerAction (type : String) (source : TypeSource) : Action Unit := do
  let table ← consult source.load
  let oracle : Oracle Unit := table.oracle
  let code ← compute (lowerType oracle source.depth type) fun e =>
    ⟨"Failed to lower type '" ++ type ++ "'", [e.message]⟩
  printLine code

/-- The texts of the causes of a conversion that fails. -/
def buildReport (e : ConversionError) : Report :=
  ⟨"Failed to build decompiler configuration", [e.message, e.cause.message]⟩

/-- The inputs of a configuration, read in order. -/
structure ConfigInputs where
  functions : List Analysis.Function
  symbols : List Analysis.Symbol
  flags : List Analysis.Flag
  table : TypeTable

def ConfigRequest.inputs (request : ConfigRequest) (files : Files) : Except Report ConfigInputs := do
  let functions ← files.readRecords "function list" Analysis.Function.ofJson? request.functions
  let symbols ← files.readOptional "symbol list" Analysis.Symbol.ofJson? request.symbols
  let flags ← files.readOptional "flag list" Analysis.Flag.ofJson? request.flags
  return { functions, symbols, flags, table := ← request.source.load files }

def ConfigRequest.build (request : ConfigRequest) (inputs : ConfigInputs) :
    Run Unit ConversionError Config :=
  let b : Builder Unit := ⟨inputs.table.oracle, request.word, request.source.depth⟩
  b.build request.lenient inputs.functions inputs.symbols inputs.flags

/-- Writes the text of a configuration to the file of the request or to the standard output. -/
def ConfigRequest.deliver (request : ConfigRequest) (config : Config) : Action Unit :=
  match request.output with
  | some path => writeFile path (config.text ++ "\n")
  | none => printLine config.text

def ConfigRequest.perform (request : ConfigRequest) : Action Unit := do
  let inputs ← consult request.inputs
  let config ← compute (request.build inputs) buildReport
  request.deliver config

def setLines : List String :=
  headed "Available builtin aggregate sets:"
    ["  posix  - POSIX structs (timeval, timespec, tm, iovec, etc.)"]

def nameLines (table : TypeTable) : List String :=
  headed ("Aggregates (" ++ toString table.size ++ "):") (table.names.map ("  " ++ ·))

/-- Prints the members of an aggregate. -/
def showAction (name : String) (source : TypeSource) : Action Unit := do
  let table ← consult source.load
  match table.get? name with
  | some aggregate => printLines (aggregate.lines (shownName name))
  | none => .fail (.reported ⟨"Aggregate '" ++ name ++ "' not found", []⟩)

/-- What a command does. -/
def Command.perform : Command → Action Unit
  | .lower type source => lowerAction type source
  | .offset raw word => printLine (toString (raw.normalize word).value)
  | .convention name => printLine (conventionTag name)
  | .config request => request.perform
  | .listSets => printLines setLines
  | .listTypes source => do printLines (nameLines (← consult source.load))
  | .showType name source => showAction name source

/-- What a command line leaves behind. -/
structure Result where
  status : Nat
  stdout : String
  stderr : String
  /-- The file that was written last, with its content. -/
  written : Option (String × String)
  /-- The events that are urgent enough to be shown. -/
  log : List Event

/-- Shows how a command line is used. -/
def usage : String :=
  "Usage: decomp-config [-v] <lower|offset|callconv|config|types> [options] [arguments]\n"

/-- The least urgent level whose events are shown, where `verbosity` tells how often more detail was
asked for. -/
def shownLevel : (verbosity : Nat) → Level
  | 0 => .warn
  | 1 => .info
  | 2 => .debug
  | _ => .trace

/-- An outcome as the streams and the file show it. -/
def resultOf (verbosity : Nat) (o : Outcome World Failure Unit) : Result :=
  let log := o.events.filter fun e => e.level.rank ≤ (shownLevel verbosity).rank
  let written := o.state.written.getLast?
  match o.result with
  | .ok () => ⟨0, o.state.stdout, "", written, log⟩
  | .error failure => ⟨failure.status, o.state.stdout, failure.text ++ "\n", written, log⟩

/-- Help is no command: it succeeds even if the standard output does not take it. -/
def helpResult (console : Console) (topic : List String) : Result :=
  let text := helpText topic
  ⟨0, if console.takes "" text then text else "", "", none, []⟩

/-- Runs a command line among files with a standard output. -/
def runOn (console : Console) (files : Files) (args : List String) : Result :=
  match Invocation.ofArguments? args with
  | some invocation =>
    resultOf invocation.verbosity (invocation.command.perform (.initial console files))
  | none =>
    match helpTopic? [] args with
    | some topic => helpResult console topic
    | none => ⟨2, "", usage, none, []⟩

/-- Runs a command line among files with a standard output that takes everything. -/
def run (files : Files) (args : List String) : Result := runOn .accepting files args

end DecompConfig.CommandLine
