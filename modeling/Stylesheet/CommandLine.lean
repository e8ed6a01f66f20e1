import Stylesheet.Config.Basic
import Stylesheet.Loading
import Stylesheet.Outline
import Stylesheet.Tree.Json
import Stylesheet.Usage

/-! The command line tool.

It loads a file, writes its tree as JSON to standard output, followed by the unused variables, and
reports anomalies and errors on standard error. -/

namespace Stylesheet

/-- What is asked for on the command line. -/
structure Arguments where
  file : Path
  includePath : Option Path
  config : Option Path
  outline : Bool
deriving DecidableEq, Repr

namespace Arguments

/-- The arguments read so far. -/
structure Draft where
  file : Option Path
  includePath : Option Path
  config : Option Path
  outline : Bool

/-- The arguments with those of a list. The last of several directories or configurations counts;
a second file is not allowed, nor is an unknown option. -/
def Draft.read? (d : Draft) : List Text → Option Draft
  | [] => some d
  | argument :: rest =>
      if argument = "--include-path".toList then
        match rest with
        | value :: rest => read? { d with includePath := some value } rest
        | [] => none
      else if argument = "--config".toList then
        match rest with
        | value :: rest => read? { d with config := some value } rest
        | [] => none
      else if argument = "--outline".toList then read? { d with outline := true } rest
      else if (Text.after? "--".toList argument).isSome || d.file.isSome then none
      else read? { d with file := some argument } rest

/-- What a list of arguments asks for, if it makes sense. -/
def ofList? (arguments : List Text) : Option Arguments := do
  let d ← Draft.read? ⟨none, none, none, false⟩ arguments
  let file ← d.file
  return ⟨file, d.includePath, d.config, d.outline⟩

end Arguments

/-- What the tool leaves behind. -/
structure Report where
  exitCode : Nat
  stdout : Text
  stderr : Text
  /-- The lines of the log, if one is kept. -/
  log : Option Text
  /-- The paths asked about. -/
  probes : List Path
deriving DecidableEq, Repr

namespace CommandLine

/-- A text as a line. -/
def line (t : Text) : Text :=
  t ++ ['\n']

/-- How the tool is used. -/
def usage (program : Text) : Text :=
  [ "Usage: ".toList ++ program ++
      " <file> [--include-path <dir>] [--config <file>] [--outline]".toList,
    "  <file>:          SCSS entry file to parse".toList,
    "  --include-path:  directory searched first when resolving imports".toList,
    "  --config:        JSON configuration file".toList,
    "  --outline:       print a readable tree outline to stderr".toList,
    "Example: ".toList ++ program ++
      " styles/main.scss --include-path styles/shared".toList ].flatMap line

/-- The outline of a tree and the number of its nodes. -/
def overview (f : SourceFile) : Text :=
  line "=== SCSS Tree ===".toList ++ Outline.file f ++ line [] ++
    line "=== Tree Statistics ===".toList ++
    (NodeCounts.ofFile f).flatMap fun (kind, count) =>
      line (kind ++ ": ".toList ++ Text.ofNat count)

/-- The settings that hold: an include directory on the command line comes first. -/
def effective (a : Arguments) (c : Config) : Config :=
  { c with includePath := a.includePath.or c.includePath }

/-- The configuration asked for. -/
def configure (d : Disk) (a : Arguments) : Except Error Config :=
  match a.config with
  | some path => (Config.load d path).map (effective a)
  | none => .ok (effective a .empty)

/-- The records before a file is loaded. -/
def opening (program : Text) (arguments : List Text) (a : Arguments) : List Record :=
  [⟨.info, "SCSS tree starting for ".toList ++ a.file⟩,
    ⟨.info, "Command line arguments: ".toList ++ Text.quotedList (program :: arguments)⟩]

/-- The records that a filter lets through, as lines. -/
def logText (f : LogFilter) (records : List Record) : Text :=
  (records.filter (f.admits ·.level)).flatMap fun r => line r.text

/-- What is written to standard output for a loaded tree. -/
def output (loaded : Loaded) : Text :=
  line (loaded.file.json.pretty 0) ++ loaded.file.unused.flatMap fun u => line u.line

/-- The findings written to standard error. -/
def anomalies (loaded : Loaded) : Text :=
  (loaded.diagnostics.filter (·.code == Diagnostic.anomalyCode)).flatMap fun d => line d.line

/-- A run with its arguments and its configuration settled. A log that cannot be kept is reported
and otherwise does not matter. -/
def execute (d : Disk) (logFault : Option ReadFault) (before : List Record) (a : Arguments)
    (c : Config) : Report :=
  let run := (Workspace.mk d c.includePath).load a.file
  let complaint :=
    match logFault with
    | some fault => line ("Failed to initialize logger: ".toList ++ fault.message)
    | none => []
  let log (after : List Record) : Option Text :=
    match logFault with
    | some _ => none
    | none => some (logText c.filter (before ++ run.log ++ after))
  let probes := a.config.toList ++ run.probes
  match run.result with
  | .error e =>
      { exitCode := e.exitCode
        stdout := []
        stderr := complaint ++ line e.line
        log := log [⟨.error, "Parse failed: ".toList ++ e.message⟩]
        probes := probes }
  | .ok loaded =>
      { exitCode := 0
        stdout := output loaded
        stderr := complaint ++ (if a.outline then overview loaded.file else []) ++ anomalies loaded
        log := log
          [⟨.info, Text.ofNat loaded.file.unused.length ++ " unused variable(s)".toList⟩]
        probes := probes }

/-- A run of the tool on a disk. -/
def run (d : Disk) (logFault : Option ReadFault) (program : Text) (arguments : List Text) :
    Report :=
  match Arguments.ofList? arguments with
  | none => ⟨1, [], usage program, none, []⟩
  | some a =>
      match configure d a with
      | .error e => ⟨e.exitCode, [], line e.line, none, a.config.toList⟩
      | .ok c => execute d logFault (opening program arguments a) a c

end CommandLine

end Stylesheet
