import DecompConfig.Proofs.CommandLine.Action
import DecompConfig.Proofs.Config.Json

namespace DecompConfig.CommandLine

open CommandLine.Action

/-- What a command brings out in the end. -/
inductive Delivery where
  /-- Lines on the standard output, each printed on its own. -/
  | lines (lines : List String)
  | file (path content : String)

namespace Delivery

variable {console : Console} {files : Files} {d : Delivery}

def send : Delivery → Action Unit
  | lines ls => printLines ls
  | file path content => writeFile path content

/-- The standard output takes each of the lines, or the file can be written. -/
def Accepted (console : Console) (files : Files) : Delivery → Prop
  | lines ls => console.TakesAll "" ls
  | file path content =>
    if console.isAt path then console.takes "" content = true else files.canWrite path = true

/-- The world after a delivery that is accepted. -/
def world (console : Console) (files : Files) : Delivery → World
  | lines ls => { World.initial console files with stdout := textOf ls }
  | file path content =>
    if console.isAt path then { World.initial console files with stdout := content }
    else { World.initial console files with written := [(path, content)] }

theorem send_of_accepted (h : d.Accepted console files) :
    d.send (.initial console files) = ⟨.ok (), d.world console files, []⟩ := by
  cases d with
  | lines ls =>
    have htakes : (World.initial console files).console.TakesAll "" ls := h
    rw [send, printLines_of_takes htakes, world]
    simp [World.initial]
  | file path content =>
    rw [Accepted] at h
    by_cases hat : console.isAt path = true
    · rw [if_pos hat] at h
      rw [send, writeFile_of_isAt hat, print_of_takes h, world, if_pos hat]
      simp [World.initial]
    · rw [if_neg hat] at h
      rw [send, writeFile_of_not_isAt hat, world, if_neg hat]
      exact if_pos h

theorem send_lines_of_refuses {before : List String} {line : String} (after : List String)
    (hbefore : console.TakesAll "" before)
    (hline : console.takes (textOf before) (line ++ "\n") = false) :
    (lines (before ++ line :: after)).send (.initial console files) =
      ⟨.error .refused, { World.initial console files with stdout := textOf before }, []⟩ := by
  have hrefused : console.takes ("" ++ textOf before) (line ++ "\n") = false := by simpa using hline
  rw [send, printLines_of_refuses after hbefore hrefused]
  simp [World.initial]

/-- A file that cannot be written leaves everything as it was. -/
theorem send_file_of_not_accepted {path content : String}
    (h : ¬(file path content).Accepted console files) : ∃ report,
    (file path content).send (.initial console files) =
      ⟨.error (.reported report), .initial console files, []⟩ := by
  rw [Accepted] at h
  refine ⟨⟨"Failed to write config: " ++ path, []⟩, ?_⟩
  by_cases hat : console.isAt path = true
  · rw [if_pos hat, Bool.not_eq_true] at h
    rw [send, writeFile_of_isAt hat, print_of_refuses h]
  · rw [if_neg hat] at h
    rw [send, writeFile_of_not_isAt hat]
    exact if_neg h

end Delivery

/-- The configuration that is built for a request. -/
def ConfigRequest.Builds (request : ConfigRequest) (files : Files) (config : Config) : Prop :=
  ∃ inputs, request.inputs files = .ok inputs ∧ (request.build inputs ()).result = .ok config

namespace Command

/-- Everything that a command needs can be read and computed, and this is what it brings out. -/
inductive Delivers (files : Files) : Command → Delivery → Prop
  | lower {type : String} {source : TypeSource} {table : TypeTable} {code : String} :
    source.load files = .ok table →
    (lowerType (table.oracle : Oracle Unit) source.depth type ()).result = .ok code →
    Delivers files (.lower type source) (.lines [code])
  | offset (raw : RawOffset) (word : WordSize) :
    Delivers files (.offset raw word) (.lines [toString (raw.normalize word).value])
  | convention (name : String) :
    Delivers files (.convention name) (.lines [conventionTag name])
  | config {request : ConfigRequest} {config : Config} :
    request.Builds files config → request.output = none →
    Delivers files (.config request) (.lines [config.text])
  | configFile {request : ConfigRequest} {config : Config} {path : String} :
    request.Builds files config → request.output = some path →
    Delivers files (.config request) (.file path (config.text ++ "\n"))
  | listSets : Delivers files .listSets (.lines setLines)
  | listTypes {source : TypeSource} {table : TypeTable} : source.load files = .ok table →
    Delivers files (.listTypes source) (.lines (nameLines table))
  | showType {name : String} {source : TypeSource} {table : TypeTable} {aggregate : Aggregate} :
    source.load files = .ok table → table.get? name = some aggregate →
    Delivers files (.showType name source) (.lines (aggregate.lines (shownName name)))

/-- A command that prints its lines one after the other. -/
def isListing : Command → Bool
  | listSets | listTypes _ | showType .. => true
  | lower .. | offset .. | convention _ | config _ => false

/-- The standard output takes the lines `before` of a command and refuses the one behind them. -/
def BreaksOff (command : Command) (console : Console) (files : Files) (before : List String) : Prop :=
  ∃ line after, command.Delivers files (.lines (before ++ line :: after)) ∧
    console.TakesAll "" before ∧ console.takes (textOf before) (line ++ "\n") = false

variable {console : Console} {files : Files} {command : Command} {d : Delivery} {w : World}
  {before : List String}

theorem Delivers.length_lines {lines : List String} (h : command.Delivers files (.lines lines)) :
    command.isListing = true ∨ lines.length = 1 := by
  cases h with
  | listSets | listTypes _ | showType _ _ => exact .inl rfl
  | lower _ _ | offset _ _ | convention _ | config _ _ => exact .inr rfl

/-- A command whose inputs are in order does nothing but to bring out what it has to. -/
theorem perform_of_delivers (h : command.Delivers w.files d) :
    ∃ events, command.perform w = (d.send w).after events := by
  cases h with
  | lower hload hcode =>
    rw [perform, lowerAction, consult_bind_of_ok hload, compute_bind_of_ok hcode,
      ← printLines_singleton]
    exact ⟨_, rfl⟩
  | offset raw word =>
    rw [perform, ← printLines_singleton]
    exact ⟨[], rfl⟩
  | convention name =>
    rw [perform, ← printLines_singleton]
    exact ⟨[], rfl⟩
  | config hbuilds houtput =>
    obtain ⟨inputs, hinputs, hbuild⟩ := hbuilds
    rw [perform, ConfigRequest.perform, consult_bind_of_ok hinputs, compute_bind_of_ok hbuild,
      ConfigRequest.deliver, houtput]
    dsimp only
    rw [← printLines_singleton]
    exact ⟨_, rfl⟩
  | configFile hbuilds houtput =>
    obtain ⟨inputs, hinputs, hbuild⟩ := hbuilds
    rw [perform, ConfigRequest.perform, consult_bind_of_ok hinputs, compute_bind_of_ok hbuild,
      ConfigRequest.deliver, houtput]
    exact ⟨_, rfl⟩
  | listSets => exact ⟨[], rfl⟩
  | listTypes hload =>
    rw [perform, consult_bind_of_ok hload]
    exact ⟨[], rfl⟩
  | showType hload hget =>
    rw [perform, showAction, consult_bind_of_ok hload, hget]
    exact ⟨[], rfl⟩

/-- A command whose inputs are not in order stops before it prints or writes. -/
theorem perform_of_not_delivers (h : ∀ d, ¬command.Delivers w.files d) :
    ∃ report events, command.perform w = ⟨.error (.reported report), w, events⟩ := by
  cases command with
  | lower type source =>
    rw [perform, lowerAction]
    cases hload : source.load w.files with
    | error report => exact ⟨report, [], consult_bind_of_error hload⟩
    | ok table =>
      rw [consult_bind_of_ok hload]
      cases hcode : (lowerType (table.oracle : Oracle Unit) source.depth type ()).result with
      | error e => exact ⟨_, _, compute_bind_of_error hcode⟩
      | ok code => exact absurd (.lower hload hcode) (h _)
  | offset raw word => exact absurd (.offset raw word) (h _)
  | convention name => exact absurd (.convention name) (h _)
  | config request =>
    rw [perform, ConfigRequest.perform]
    cases hinputs : request.inputs w.files with
    | error report => exact ⟨report, [], consult_bind_of_error hinputs⟩
    | ok inputs =>
      rw [consult_bind_of_ok hinputs]
      cases hbuild : (request.build inputs ()).result with
      | error e => exact ⟨_, _, compute_bind_of_error hbuild⟩
      | ok config =>
        have hbuilds : request.Builds w.files config := ⟨inputs, hinputs, hbuild⟩
        cases houtput : request.output with
        | none => exact absurd (.config hbuilds houtput) (h _)
        | some path => exact absurd (.configFile hbuilds houtput) (h _)
  | listSets => exact absurd .listSets (h _)
  | listTypes source =>
    rw [perform]
    cases hload : source.load w.files with
    | error report => exact ⟨report, [], consult_bind_of_error hload⟩
    | ok table => exact absurd (.listTypes hload) (h _)
  | showType name source =>
    rw [perform, showAction]
    cases hload : source.load w.files with
    | error report => exact ⟨report, [], consult_bind_of_error hload⟩
    | ok table =>
      rw [consult_bind_of_ok hload]
      cases hget : table.get? name with
      | none => exact ⟨_, [], rfl⟩
      | some aggregate => exact absurd (.showType hload hget) (h _)

theorem perform_of_accepted (h : command.Delivers files d) (haccepted : d.Accepted console files) :
    ∃ events, command.perform (.initial console files) = ⟨.ok (), d.world console files, events⟩ := by
  obtain ⟨events, hperform⟩ := perform_of_delivers (w := .initial console files) h
  exact ⟨_, by rw [hperform, Delivery.send_of_accepted haccepted, Outcome.after]⟩

theorem perform_of_breaksOff (h : command.BreaksOff console files before) :
    ∃ events, command.perform (.initial console files) =
      ⟨.error .refused, { World.initial console files with stdout := textOf before }, events⟩ := by
  obtain ⟨line, after, hd, hbefore, hline⟩ := h
  obtain ⟨events, hperform⟩ := perform_of_delivers (w := .initial console files) hd
  exact ⟨_, by rw [hperform, Delivery.send_lines_of_refuses after hbefore hline, Outcome.after]⟩

/-- A command that prints once has printed nothing when it breaks off. -/
theorem BreaksOff.eq_nil (h : command.BreaksOff console files before)
    (honce : command.isListing = false) : before = [] := by
  obtain ⟨line, after, hd, -, -⟩ := h
  rcases hd.length_lines with hlisting | hlength
  · rw [honce] at hlisting
    cases hlisting
  · rw [List.length_append, List.length_cons] at hlength
    exact List.eq_nil_of_length_eq_zero (by omega)

/-- What a command has to bring out is accepted, or the command breaks off, or it reports an error and has
changed nothing. -/
theorem perform_cases (command : Command) (console : Console) (files : Files) :
    (∃ d, command.Delivers files d ∧ d.Accepted console files) ∨
    (∃ before, command.BreaksOff console files before) ∨
    ∃ report events, command.perform (.initial console files) =
      ⟨.error (.reported report), .initial console files, events⟩ := by
  by_cases hdelivers : ∃ d, command.Delivers files d
  · obtain ⟨d, hd⟩ := hdelivers
    by_cases haccepted : d.Accepted console files
    · exact .inl ⟨d, hd, haccepted⟩
    · cases d with
      | lines ls =>
        rcases console.takesAll_or_refuses "" ls with hall | ⟨before, line, after, rfl, hbefore, hline⟩
        · exact absurd hall haccepted
        · rw [String.empty_append] at hline
          exact .inr (.inl ⟨before, line, after, hd, hbefore, hline⟩)
      | file path content =>
        obtain ⟨events, hperform⟩ := perform_of_delivers (w := .initial console files) hd
        obtain ⟨report, hsend⟩ := Delivery.send_file_of_not_accepted haccepted
        exact .inr (.inr ⟨report, _, by rw [hperform, hsend, Outcome.after]⟩)
  · obtain ⟨report, events, hperform⟩ := perform_of_not_delivers (w := .initial console files)
      (not_exists.mp hdelivers)
    exact .inr (.inr ⟨report, events, hperform⟩)

end Command

section Runs

variable {console : Console} {files : Files} {args : List String} {invocation : Invocation}

theorem runOn_of_some (h : Invocation.ofArguments? args = some invocation) :
    runOn console files args =
      resultOf invocation.verbosity (invocation.command.perform (.initial console files)) := by
  rw [runOn, h]

theorem runOn_of_none (h : Invocation.ofArguments? args = none) : runOn console files args =
    (helpTopic? [] args).elim ⟨2, "", usage, none, []⟩ (helpResult console) := by
  rw [runOn, h]
  cases helpTopic? [] args <;> rfl

theorem runOn_of_accepted {d : Delivery} (h : Invocation.ofArguments? args = some invocation)
    (hd : invocation.command.Delivers files d) (haccepted : d.Accepted console files) :
    (runOn console files args).status = 0 ∧
      (runOn console files args).stdout = (d.world console files).stdout ∧
      (runOn console files args).written = (d.world console files).written.getLast? := by
  obtain ⟨events, hperform⟩ := Command.perform_of_accepted hd haccepted
  rw [runOn_of_some h, hperform]
  exact ⟨rfl, rfl, rfl⟩

theorem runOn_of_breaksOff {before : List String}
    (h : Invocation.ofArguments? args = some invocation)
    (hbreak : invocation.command.BreaksOff console files before) :
    (runOn console files args).status = 101 ∧ (runOn console files args).stdout = textOf before ∧
      (runOn console files args).written = none := by
  obtain ⟨events, hperform⟩ := Command.perform_of_breaksOff hbreak
  rw [runOn_of_some h, hperform]
  exact ⟨rfl, rfl, rfl⟩

theorem runOn_of_reported {report : Report} {events : List Event}
    (h : Invocation.ofArguments? args = some invocation)
    (hperform : invocation.command.perform (.initial console files) =
      ⟨.error (.reported report), .initial console files, events⟩) :
    (runOn console files args).status = 1 ∧ (runOn console files args).stdout = "" ∧
      (runOn console files args).written = none := by
  rw [runOn_of_some h, hperform]
  exact ⟨rfl, rfl, rfl⟩

theorem status_runOn_eq_zero_iff (h : Invocation.ofArguments? args = some invocation) :
    (runOn console files args).status = 0 ↔
      ∃ d, invocation.command.Delivers files d ∧ d.Accepted console files := by
  constructor
  · intro hstatus
    rcases invocation.command.perform_cases console files with
      haccepted | ⟨before, hbreak⟩ | ⟨report, events, hperform⟩
    · exact haccepted
    · have := (runOn_of_breaksOff h hbreak).1
      omega
    · have := (runOn_of_reported h hperform).1
      omega
  · rintro ⟨d, hd, haccepted⟩
    exact (runOn_of_accepted h hd haccepted).1

theorem status_runOn_eq_refused_iff (h : Invocation.ofArguments? args = some invocation) :
    (runOn console files args).status = 101 ↔
      ∃ before, invocation.command.BreaksOff console files before := by
  constructor
  · intro hstatus
    rcases invocation.command.perform_cases console files with
      ⟨d, hd, haccepted⟩ | hbreak | ⟨report, events, hperform⟩
    · have := (runOn_of_accepted h hd haccepted).1
      omega
    · exact hbreak
    · have := (runOn_of_reported h hperform).1
      omega
  · rintro ⟨before, hbreak⟩
    exact (runOn_of_breaksOff h hbreak).1

/-- Only a usage error has the status 2. -/
theorem status_runOn_of_some (h : Invocation.ofArguments? args = some invocation) :
    (runOn console files args).status ∈ [0, 1, 101] := by
  rcases invocation.command.perform_cases console files with
    ⟨d, hd, haccepted⟩ | ⟨before, hbreak⟩ | ⟨report, events, hperform⟩
  · simp [(runOn_of_accepted h hd haccepted).1]
  · simp [(runOn_of_breaksOff h hbreak).1]
  · simp [(runOn_of_reported h hperform).1]

/-- What a command that fails has printed is what the standard output took before it refused a line. -/
theorem trace_of_failure (h : Invocation.ofArguments? args = some invocation)
    (hstatus : (runOn console files args).status ≠ 0) :
    (runOn console files args).written = none ∧
    (invocation.command.perform (.initial console files)).state =
      { World.initial console files with stdout := (runOn console files args).stdout } ∧
    ((runOn console files args).stdout = "" ∨ invocation.command.isListing = true ∧
      ∃ before, invocation.command.BreaksOff console files before ∧
        (runOn console files args).status = 101 ∧
        (runOn console files args).stdout = textOf before) := by
  rcases invocation.command.perform_cases console files with
    haccepted | ⟨before, hbreak⟩ | ⟨report, events, hperform⟩
  · exact absurd ((status_runOn_eq_zero_iff h).mpr haccepted) hstatus
  · obtain ⟨events, hperform⟩ := Command.perform_of_breaksOff hbreak
    obtain ⟨hrefused, hstdout, hwritten⟩ := runOn_of_breaksOff h hbreak
    refine ⟨hwritten, by rw [hperform, hstdout], ?_⟩
    cases hlisting : invocation.command.isListing with
    | true => exact .inr ⟨rfl, before, hbreak, hrefused, hstdout⟩
    | false => exact .inl (by rw [hstdout, hbreak.eq_nil hlisting, textOf_nil])
  · obtain ⟨-, hstdout, hwritten⟩ := runOn_of_reported h hperform
    exact ⟨hwritten, by rw [hperform, hstdout]; rfl, .inl hstdout⟩

/-- Where the text of a configuration goes that has an output. -/
theorem exists_config_of_status_eq_zero {request : ConfigRequest} {verbosity : Nat} {path : String}
    (h : Invocation.ofArguments? args = some ⟨.config request, verbosity⟩)
    (houtput : request.output = some path) (hstatus : (runOn console files args).status = 0) :
    ∃ config, request.Builds files config ∧
      (request.perform (.initial console files)).state =
        (Delivery.file path (config.text ++ "\n")).world console files ∧
      if console.isAt path then
        (runOn console files args).stdout = config.text ++ "\n" ∧
          (runOn console files args).written = none
      else (runOn console files args).stdout = "" ∧
        (runOn console files args).written = some (path, config.text ++ "\n") := by
  obtain ⟨d, hd, haccepted⟩ := (status_runOn_eq_zero_iff h).mp hstatus
  obtain ⟨events, hperform⟩ := Command.perform_of_accepted hd haccepted
  obtain ⟨-, hstdout, hwritten⟩ := runOn_of_accepted h hd haccepted
  cases hd with
  | config hbuilds hnone => simp [hnone] at houtput
  | @configFile _ config _ hbuilds hsome =>
    obtain rfl := Option.some.inj (hsome.symm.trans houtput)
    refine ⟨config, hbuilds, congrArg Outcome.state hperform, ?_⟩
    rw [hstdout, hwritten, Delivery.world]
    split <;> exact ⟨rfl, rfl⟩

/-- A command line that fails has written no file. It has printed nothing either, unless it lists
several lines and the standard output refuses one of them: then the lines before that one stay. It
fails unless everything that its command needs is there and its output is accepted. A configuration
that is written to a file is not printed, unless the file is the standard output, and the file holds
its text and a line end. -/
theorem failure_leaves_no_trace (console : Console) (files : Files) (args : List String) :
    let result := runOn console files args
    (result.status ≠ 0 → result.written = none ∧
      (∀ invocation, Invocation.ofArguments? args = some invocation →
        (invocation.command.perform (.initial console files)).state =
          { World.initial console files with stdout := result.stdout }) ∧
      (result.stdout = "" ∨ ∃ invocation before,
        Invocation.ofArguments? args = some invocation ∧ invocation.command.isListing = true ∧
        invocation.command.BreaksOff console files before ∧
        result.status = 101 ∧ result.stdout = textOf before)) ∧
    (result.status = 0 ↔
      (∃ invocation d, Invocation.ofArguments? args = some invocation ∧
        invocation.command.Delivers files d ∧ d.Accepted console files) ∨
      Invocation.ofArguments? args = none ∧ ∃ topic, helpTopic? [] args = some topic) ∧
    (result.status = 101 ↔ ∃ invocation before, Invocation.ofArguments? args = some invocation ∧
      invocation.command.BreaksOff console files before) ∧
    (result.status = 2 ↔ Invocation.ofArguments? args = none ∧ helpTopic? [] args = none) ∧
    result.status ∈ [0, 1, 2, 101] ∧
    ∀ request verbosity path, Invocation.ofArguments? args = some ⟨.config request, verbosity⟩ →
      request.output = some path → result.status = 0 →
      ∃ config, request.Builds files config ∧
        (Json.parse? config.text).bind Config.ofJson? = some config ∧
        (request.perform (.initial console files)).state =
          (Delivery.file path (config.text ++ "\n")).world console files ∧
        if console.isAt path then result.stdout = config.text ++ "\n" ∧ result.written = none
        else result.stdout = "" ∧ result.written = some (path, config.text ++ "\n") := by
  intro result
  cases h : Invocation.ofArguments? args with
  | none =>
    cases htopic : helpTopic? [] args with
    | none =>
      have hresult : result = ⟨2, "", usage, none, []⟩ := by
        simp only [result, runOn_of_none h, htopic, Option.elim]
      simp [hresult]
    | some topic =>
      have hstatus : result.status = 0 := by
        simp only [result, runOn_of_none h, htopic, Option.elim, helpResult]
      simp [hstatus]
  | some invocation =>
    have hcommand : result.status ∈ [0, 1, 101] := status_runOn_of_some h
    refine ⟨?_, ?_, ?_, ?_, ?_, ?_⟩
    · intro hstatus
      obtain ⟨hwritten, hstate, htrace⟩ := trace_of_failure h hstatus
      refine ⟨hwritten, ?_, ?_⟩
      · rintro _ ⟨rfl⟩
        exact hstate
      · exact htrace.imp id fun ⟨hlisting, before, hbreak⟩ =>
          ⟨invocation, before, rfl, hlisting, hbreak⟩
    · rw [status_runOn_eq_zero_iff h]
      simp
    · rw [status_runOn_eq_refused_iff h]
      simp
    · refine iff_of_false (fun hstatus => ?_) nofun
      rw [hstatus] at hcommand
      exact absurd hcommand (by decide)
    · exact (by decide : [0, 1, 101] ⊆ [0, 1, 2, 101]) hcommand
    · intro request verbosity path hsome houtput hstatus
      obtain ⟨config, hbuilds, hdelivered⟩ :=
        exists_config_of_status_eq_zero (h.trans hsome) houtput hstatus
      exact ⟨config, hbuilds, Config.ofJson?_parse?_write Json.Layout.spaced_pretty config, hdelivered⟩

/-- The last function of the first list has a type that cannot be lowered. -/
def configFiles : Files where
  read? path := List.lookup path [
    ("bad", "[\x7b\"name\": \"f\", \"offset\": 4096, \"size\": 8\x7d, " ++
      "\x7b\"name\": \"g\", \"offset\": 8192, \"size\": 8, \"return\": \"struct t\"\x7d]"),
    ("good", "[\x7b\"name\": \"f\", \"offset\": 4096, \"size\": 8\x7d]"),
    ("empty", "[]")]
  canWrite path := path == "out"

/-- The standard output that takes one text only. -/
def narrowConsole : Console := { Console.accepting with takes taken _ := taken == "" }

theorem failure_leaves_no_trace_config :
    let failed := runOn .accepting configFiles ["config", "bad", "-o", "out"]
    let succeeded := runOn .accepting configFiles ["config", "good", "-o", "out"]
    let misused := runOn .accepting configFiles ["config", "good", "-o"]
    let helped := runOn .accepting configFiles ["config", "good", "-o", "out", "--help"]
    let refused := runOn narrowConsole configFiles ["types", "show", "timeval", "-b", "posix"]
    (failed.status = 1 ∧ failed.stdout = "" ∧ failed.written = none) ∧
    (succeeded.status = 0 ∧ succeeded.stdout = "" ∧ succeeded.written = some ("out",
      "\x7b\n  \"functions\": [\n    \x7b\n      \"startAddr\": \"0x1000\",\n" ++
      "      \"endAddr\": \"0x1008\",\n      \"name\": \"f\",\n      \"realName\": \"f\",\n" ++
      "      \"callingConvention\": \"unknown\",\n      \"parameters\": [],\n" ++
      "      \"locals\": [],\n      \"returnType\": \x7b\n        \"llvmIr\": \"void\"\n" ++
      "      \x7d\n    \x7d\n  ],\n  \"globals\": []\n\x7d\n")) ∧
    (misused.status = 2 ∧ misused.stdout = "" ∧ misused.written = none) ∧
    (helped.status = 0 ∧ helped.stdout = helpText ["config"] ∧ helped.written = none) ∧
    refused.status = 101 ∧ refused.stdout = "struct timeval \x7b\n" ∧ refused.written = none := by
  intro failed succeeded misused helped refused
  have hbad : failed.status = 1 := by decide +kernel
  have hgood : succeeded.status = 0 := by decide +kernel
  have hrefused : refused.status = 101 := by decide +kernel
  have hargs : Invocation.ofArguments? ["config", "good", "-o", "out"] =
      some ⟨.config ⟨"good", none, none, ⟨none, none, [], defaultDepth⟩, .bits64, some "out", false⟩,
        0⟩ := by decide +kernel
  obtain ⟨htrace, -⟩ := failure_leaves_no_trace .accepting configFiles ["config", "bad", "-o", "out"]
  obtain ⟨hfailed, -, hnothing⟩ := htrace (by rw [hbad]; decide)
  obtain ⟨-, -, -, -, -, hsent⟩ :=
    failure_leaves_no_trace .accepting configFiles ["config", "good", "-o", "out"]
  obtain ⟨-, -, -, -, hempty, -⟩ := hsent _ _ _ hargs rfl hgood
  obtain ⟨-, -, -, htwo, -, -⟩ :=
    failure_leaves_no_trace .accepting configFiles ["config", "good", "-o"]
  have hmisused : misused.status = 2 := htwo.mpr (by decide +kernel)
  obtain ⟨-, hzero, -⟩ := failure_leaves_no_trace .accepting configFiles
    ["config", "good", "-o", "out", "--help"]
  have hhelped : helped.status = 0 :=
    hzero.mpr (.inr ⟨by decide +kernel, ["config"], by decide +kernel⟩)
  obtain ⟨hlines, -⟩ := failure_leaves_no_trace narrowConsole configFiles
    ["types", "show", "timeval", "-b", "posix"]
  obtain ⟨hkept, -, -⟩ := hlines (by rw [hrefused]; decide)
  refine ⟨⟨hbad, ?_, hfailed⟩, ⟨hgood, hempty, ?_⟩, ⟨hmisused, by decide +kernel, by decide +kernel⟩,
    ⟨hhelped, by decide +kernel, by decide +kernel⟩, hrefused, by decide +kernel, hkept⟩
  · rcases hnothing with hempty | ⟨-, -, -, -, -, hstatus, -⟩
    · exact hempty
    · rw [hbad] at hstatus
      cases hstatus
  · decide +kernel

/-- Lines are printed one by one, so the ones before a line that is refused stay. A configuration is
printed even though it has an output, if that is the standard output. -/
theorem refused_line_leaves_trace :
    let listed := runOn narrowConsole configFiles ["types", "builtin"]
    let sent := runOn .accepting configFiles ["config", "empty", "-o", "/dev/stdout"]
    (listed.status = 101 ∧ listed.stdout = "Available builtin aggregate sets:\n") ∧
    sent.status = 0 ∧ sent.written = none ∧
      sent.stdout = "\x7b\n  \"functions\": [],\n  \"globals\": []\n\x7d\n" := by
  decide +kernel

end Runs

end DecompConfig.CommandLine
