import Stylesheet.Config.Document
import Stylesheet.Report.Error
import Stylesheet.Report.Log

/-! The configuration of a run.

It is read from a JSON object with the members `includePath` and `logLevel`, or from an array with
these two in order. Both may be missing or null. Other members are passed over. -/

namespace Stylesheet

/-- The settings of a run. -/
structure Config where
  /-- The directory in which imports are looked up first. -/
  includePath : Option Path
  logLevel : Option Text
deriving DecidableEq, Repr

namespace Config

/-- Nothing is set. -/
def empty : Config := ⟨none, none⟩

/-- A setting: a text, or null for none. -/
def setting? : Document → Option (Option Text)
  | .null => some none
  | .string (some text) => some (some text)
  | _ => none

/-- The setting under a key, if at most one member has it. -/
def lookUp? (key : Text) (members : List (Option Text × Document)) : Option (Option Text) :=
  match members.filter (·.1 == some key) with
  | [] => some none
  | [(_, value)] => setting? value
  | _ => none

/-- The configuration that a document stands for. -/
def ofDocument? : Document → Option Config
  | .array [] => some empty
  | .array [includePath] => do return ⟨← setting? includePath, none⟩
  | .array [includePath, logLevel] => do return ⟨← setting? includePath, ← setting? logLevel⟩
  | .object members => do
      if members.any (·.1.isNone) then none
      else
        let includePath ← lookUp? "includePath".toList members
        let logLevel ← lookUp? "logLevel".toList members
        return ⟨includePath, logLevel⟩
  | _ => none

/-- The configuration that a text stands for. -/
def ofText? (t : Text) : Option Config :=
  (Document.ofText? t).bind ofDocument?

/-- The configuration in a file. -/
def load (d : Disk) (p : Path) : Except Error Config :=
  match d.read p with
  | .error fault => .error (.unreadable p fault)
  | .ok text =>
      match ofText? text with
      | some config => .ok config
      | none => .error (.configuration p)

/-- Which records go to the log: those up to the level set, or up to `info` if none or an unknown
one is set. -/
def filter (c : Config) : LogFilter :=
  (c.logLevel.bind LogFilter.ofName?).getD (some .info)

end Config

end Stylesheet
