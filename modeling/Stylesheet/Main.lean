import Stylesheet.CommandLine

/-! The program: the command line tool on the disk of the machine.

The tool itself runs on a disk held in memory. That disk is filled with what the machine has at the
paths the tool asks about, and the tool runs again, until it asks about nothing new. -/

namespace Stylesheet

/-- The disk with what the machine has at one path. -/
def surveyPath (d : Disk) (p : Path) : IO Disk := do
  match ← (IO.FS.readBinFile (String.ofList p)).toBaseIO with
  | .ok bytes => return d.write (d.spelled p) bytes
  | .error (.inappropriateType _ 21 _) => return d.addDirectory (d.spelled p)
  | .error _ => return d

/-- The disk with what the machine has at a path and at every place on the way to it. -/
def survey (d : Disk) (p : Path) : IO Disk := do
  let leads := (List.range p.parts.length).map fun n => Text.join ['/'] (p.parts.take (n + 1))
  (leads.filter fun lead => !lead.isEmpty && !lead.contains '\x00').foldlM surveyPath d

/-- The report of the tool on a disk that holds everything it asks about. -/
partial def settle (run : Disk → Report) (d : Disk) (known : List Path) : IO (Disk × Report) := do
  let report := run d
  let fresh := report.probes.filter fun p => !known.contains p
  if fresh.isEmpty then return (d, report)
  else settle run (← fresh.foldlM survey d) (known ++ fresh)

/-- The directory in which programs keep their data. -/
def dataDirectory : IO (Option String) := do
  match ← IO.getEnv "XDG_DATA_HOME" with
  | some directory => return some directory
  | none => return (← IO.getEnv "HOME").map (· ++ "/.local/share")

/-- Writes the log to its file, and says why that is not possible. -/
def keepLog (log : Text) : IO (Option ReadFault) := do
  match ← dataDirectory with
  | none => return some .missing
  | some directory =>
      let write : IO Unit := do
        IO.FS.createDirAll (directory ++ "/Stylesheet")
        IO.FS.writeFile (directory ++ "/Stylesheet/stylesheet.log") (String.ofList log)
      match ← write.toBaseIO with
      | .ok () => return none
      | .error _ => return some .notDirectory

end Stylesheet

open Stylesheet in
def main (arguments : List String) : IO UInt32 := do
  let current : Disk := ⟨[], [], []⟩
  let here := current.spelled (toString (← IO.currentDir)).toList
  let program := ((Path.parts (toString (← IO.appPath)).toList).getLast?).getD []
  let run (fault : Option ReadFault) (d : Disk) : Report :=
    CommandLine.run d fault program (arguments.map String.toList)
  let (disk, report) ← settle (run none) { current.addDirectory here with current := here } []
  let fault ←
    match report.log with
    | some log => keepLog log
    | none => pure none
  let report := if fault.isSome then run fault disk else report
  (← IO.getStderr).putStr (String.ofList report.stderr)
  (← IO.getStdout).putStr (String.ofList report.stdout)
  return report.exitCode.toUInt32
