import Stylesheet.Files.Path
import Stylesheet.Json
import Stylesheet.Source.Position

/-! Diagnostics: findings that do not stop a run. -/

namespace Stylesheet

/-- How grave a finding is. -/
inductive Severity where
  | error
  | warning
  | information
deriving DecidableEq, Repr

/-- A finding and its place. -/
structure Diagnostic where
  severity : Severity
  code : Text
  message : Text
  path : Path
  position : Position
deriving DecidableEq, Repr

/-- The severity in full. -/
def Severity.name : Severity → Text
  | .error => "error".toList
  | .warning => "warning".toList
  | .information => "information".toList

/-- The severity in a line of text. -/
def Severity.label : Severity → Text
  | .information => "info".toList
  | severity => severity.name

namespace Diagnostic

/-- The code of a statement of no known shape. -/
def anomalyCode : Text := "anomalous-statement".toList

/-- The code of a variable that is never used. -/
def unusedCode : Text := "unused-variable".toList

/-- A statement of no known shape. -/
def anomaly (path : Path) (position : Position) (text : Text) : Diagnostic :=
  ⟨.warning, anomalyCode, "Unrecognized statement kept as raw text: '".toList ++ text ++ ['\''],
    path, position⟩

/-- The words for a variable that is never used. -/
def unusedMessage (position : Position) (name : Text) : Text :=
  "Unused var: $".toList ++ name ++ " at line ".toList ++ Text.ofNat position.line ++
    " and column ".toList ++ Text.ofNat position.column

/-- A variable that is never used. -/
def unused (path : Path) (position : Position) (name : Text) : Diagnostic :=
  ⟨.warning, unusedCode, unusedMessage position name, path, position⟩

/-- The finding in one line. -/
def line (d : Diagnostic) : Text :=
  d.path ++ ':' :: d.position.text ++ ": ".toList ++ d.severity.label ++ " [".toList ++ d.code ++
    "] ".toList ++ d.message

/-- The finding as JSON. -/
def json (d : Diagnostic) : Json :=
  .object [
    ("severity".toList, .string d.severity.name),
    ("code".toList, .string d.code),
    ("source".toList, .string "scss".toList),
    ("message".toList, .string d.message),
    ("path".toList, .string d.path),
    ("line".toList, .nat d.position.line),
    ("col".toList, .nat d.position.column)]

end Diagnostic

end Stylesheet
