import Stylesheet.Files.Disk
import Stylesheet.Source.Fault
import Stylesheet.Text.Quoted

/-! Errors that stop a run.

Each carries the path of the file it is about, has a kind with a name, and decides the exit code of
the program. What is wrong with a configuration is told by the path alone: the words in which the
reader of JSON documents gives its cause are left out. -/

namespace Stylesheet

/-- Why a run stops. -/
inductive Error where
  /-- A file cannot be read. -/
  | unreadable (path : Path) (fault : ReadFault)
  /-- The structure of a source is at fault. -/
  | structural (path : Path) (fault : Fault)
  /-- A file imports itself through the files of a chain. -/
  | cycle (path : Path) (chain : List Path)
  /-- A configuration is not understood. -/
  | configuration (path : Path)
deriving DecidableEq, Repr

namespace Error

/-- The name of an error's kind. -/
def kind : Error → Text
  | .unreadable .. => "IOError".toList
  | .structural .. => "StructuralParseError".toList
  | .cycle .. => "ImportCycleError".toList
  | .configuration _ => "ConfigError".toList

/-- The file an error is about. -/
def path : Error → Path
  | .unreadable path _ => path
  | .structural path _ => path
  | .cycle path _ => path
  | .configuration path => path

/-- The exit code of the program. -/
def exitCode : Error → Nat
  | .unreadable .. => 2
  | .structural .. => 3
  | .cycle .. => 3
  | .configuration _ => 1

/-- The error in words. The cause that follows the path of a configuration is left out. -/
def message : Error → Text
  | .unreadable path fault =>
      "Failed to read ".toList ++ Text.quoted path ++ ": ".toList ++ fault.message
  | .structural path fault =>
      "Parse error in file ".toList ++ Text.quoted path ++ " at line ".toList ++
        Text.ofNat fault.position.line ++ ", column ".toList ++
        Text.ofNat fault.position.column ++ ": ".toList ++ fault.cause.message
  | .cycle path chain =>
      "Import cycle detected in ".toList ++ Text.quoted path ++ ": ".toList ++
        Text.join " -> ".toList chain
  | .configuration path => "Invalid configuration in ".toList ++ Text.quoted path

/-- The line that the program shows for an error. -/
def line (e : Error) : Text :=
  e.kind ++ ": ".toList ++ e.message

end Error

end Stylesheet
