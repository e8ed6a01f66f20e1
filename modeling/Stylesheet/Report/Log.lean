import Stylesheet.Extraction
import Stylesheet.Files.Path

/-! Log records and the levels that admit them.

A record is the level and the message of a line; the time that the log writes in front of them is
left out. -/

namespace Stylesheet

/-- How much a record matters, the gravest first. -/
inductive Level where
  | error
  | warn
  | info
  | debug
  | trace
deriving DecidableEq, Repr

namespace Level

/-- Every level, the gravest first. -/
def all : List Level := [.error, .warn, .info, .debug, .trace]

/-- The name of a level in a record. -/
def name : Level → Text
  | .error => "ERROR".toList
  | .warn => "WARN".toList
  | .info => "INFO".toList
  | .debug => "DEBUG".toList
  | .trace => "TRACE".toList

/-- The rank of a level: the graver, the lower. -/
def rank : Level → Nat
  | .error => 1
  | .warn => 2
  | .info => 3
  | .debug => 4
  | .trace => 5

end Level

/-- The last level that is let through; none if nothing is. -/
abbrev LogFilter := Option Level

namespace LogFilter

/-- Whether a record of a level is let through. -/
def admits (f : LogFilter) (l : Level) : Bool :=
  match f with
  | none => false
  | some last => l.rank ≤ last.rank

/-- The name of a filter. -/
def name (f : LogFilter) : Text :=
  match f with
  | none => "OFF".toList
  | some last => last.name

/-- The filter of a given name, in letters of either case. -/
def ofName? (t : Text) : Option LogFilter :=
  ((none : LogFilter) :: Level.all.map some).find? fun f => f.name == t.map Char.toUpper

end LogFilter

/-- A line of the log, without its time. -/
structure Record where
  level : Level
  message : Text
deriving DecidableEq, Repr

namespace Record

/-- The record behind the name of its level. -/
def text (r : Record) : Text :=
  '[' :: r.level.name ++ "] ".toList ++ r.message

/-- The record of an event in a file. -/
def ofEvent (path : Path) : Event → Record
  | .opened header place =>
      ⟨.debug, "Opening selector '".toList ++ header ++ "' at ".toList ++ place.position.text ++
        " depth ".toList ++ Text.ofNat place.depth⟩
  | .attached typeName place =>
      ⟨.debug, typeName ++ " rule at ".toList ++ place.position.text ++ " depth ".toList ++
        Text.ofNat place.depth⟩
  | .declared typeName position =>
      ⟨.debug, typeName ++ " declaration at ".toList ++ position.text⟩
  | .anomaly text position =>
      ⟨.warn, "Unrecognized statement in ".toList ++ path ++ " at ".toList ++ position.text ++
        ": '".toList ++ text ++ ['\'']⟩
  | .repeated name position =>
      ⟨.warn, "Duplicate variable $".toList ++ name ++ " in ".toList ++ path ++ " at ".toList ++
        position.text⟩

/-- A file is about to be taken apart. -/
def parsing (path : Path) : Record :=
  ⟨.info, "Parsing ".toList ++ path⟩

/-- No path tried for a target leads to a file. -/
def unresolved (target : Text) (importer : Path) : Record :=
  ⟨.debug, "No candidate exists for import '".toList ++ target ++ "' from ".toList ++ importer⟩

/-- A target has been looked up. -/
def resolved (directive : ImportDirective) (importer path : Path) : Record :=
  ⟨.debug, "Import '".toList ++ directive.target ++ "' at ".toList ++ directive.position.text ++
    " in ".toList ++ importer ++ " resolved to ".toList ++ path⟩

end Record

end Stylesheet
