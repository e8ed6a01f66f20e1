import Stylesheet.Source.Position

/-! Faults in the structure of a source. -/

namespace Stylesheet

/-- A construct with an end of its own. -/
inductive Construct where
  | comment
  | string
  | interpolation
deriving DecidableEq, Repr

/-- What is wrong with the structure of a source. -/
inductive Cause where
  /-- A construct is still open where the source ends. -/
  | unclosed (construct : Construct)
  /-- A block kept as text is still open where the source ends. -/
  | unclosedBlock
  /-- A selector is still open where the source ends. -/
  | unclosedSelector (header : Text)
  /-- A block opens without a header. -/
  | missingHeader
  /-- A block closes where none is open. -/
  | unexpectedClose
deriving DecidableEq, Repr

/-- The name of a construct in messages. -/
def Construct.name : Construct → Text
  | .comment => "comment".toList
  | .string => "string".toList
  | .interpolation => "interpolation".toList

/-- The cause in words. -/
def Cause.message : Cause → Text
  | .unclosed construct => "Unterminated ".toList ++ construct.name
  | .unclosedBlock => "Unterminated block: missing '\x7d'".toList
  | .unclosedSelector header =>
      "Unterminated block '".toList ++ header ++ "': missing '\x7d'".toList
  | .missingHeader => "Missing rule header before '\x7b'".toList
  | .unexpectedClose => "Unexpected '\x7d'".toList

/-- A cause and the place of the construct that is at fault. -/
structure Fault where
  position : Position
  cause : Cause
deriving DecidableEq, Repr

end Stylesheet
