import Stylesheet.Source.Capture
import Stylesheet.Statement.Header
import Stylesheet.Statement.Import

/-! What one source holds.

The segments of a source are read from left to right. Selectors that are open form a stack, and
every new rule and declaration goes to the innermost of them, or to the file if there is none. While
a block that is no selector is open, its segments are captured as text. Along the way the events are
recorded that the log and the diagnostics report. -/

namespace Stylesheet

/-- A style sheet that a file asks for, at a position. -/
structure ImportDirective where
  target : Text
  position : Position
deriving DecidableEq, Repr

/-- The rules, variables and imports of one source, each in order. -/
structure Content where
  rules : List Rule
  vars : List Variable
  imports : List ImportDirective
deriving Repr

/-- Something worth reporting that happens while a source is read. -/
inductive Event where
  /-- A selector opens. -/
  | opened (header : Text) (place : Place)
  /-- A rule is complete. -/
  | attached (typeName : Text) (place : Place)
  /-- A declaration is complete. -/
  | declared (typeName : Text) (position : Position)
  /-- A statement of no known shape is kept as text. -/
  | anomaly (text : Text) (position : Position)
  /-- A variable is declared once more in the same file. -/
  | repeated (name : Text) (position : Position)
deriving DecidableEq, Repr

/-- A selector whose closing brace has not been read. -/
structure OpenSelector where
  header : Text
  position : Position
  declarations : List Declaration
  children : List Rule
deriving Repr

/-- A block that is being captured. -/
structure Pending where
  header : Text
  position : Position
  capture : Capture
deriving DecidableEq, Repr

/-- A fault, and the events before it. -/
structure Failure where
  fault : Fault
  events : List Event
deriving DecidableEq, Repr

/-- What has been read of a source. -/
structure Extraction where
  /-- The selectors that are open, innermost first. -/
  opened : List OpenSelector
  /-- The block that is being captured. -/
  pending : Option Pending
  content : Content
  events : List Event
deriving Repr

/-- A block as text: its header and its body in braces. -/
def blockText (header body : Text) : Text :=
  if body.isEmpty then header ++ [' ', '{', ' ', '}']
  else header ++ [' ', '{', ' '] ++ body ++ [' ', '}']

/-- What a captured block becomes, inside a selector or not: a rule or a clause. -/
def capturedNode (nested : Bool) (header body : Text) : Block ⊕ Clause :=
  match Text.directive? "@include".toList header with
  | some rest =>
      match if nested then Clause.inclusion? rest (some body) else none with
      | some clause => .inr clause
      | none => .inl (.raw (blockText header body))
  | none =>
      match Header.ofText header with
      | .mixin signature =>
          if nested then .inr (.mixin signature body) else .inl (.mixin signature body)
      | .function signature => .inl (.function signature body)
      | .animation name => .inl (.animation name body)
      | .selector _ => .inl (.raw (blockText header body))
      | .other => .inl (.raw (blockText header body))

namespace Extraction

/-- Nothing has been read. -/
def start : Extraction := ⟨[], none, ⟨[], [], []⟩, []⟩

/-- The depth of a rule that starts now. -/
def depth (e : Extraction) : Nat :=
  e.opened.length + 1

/-- One more event. -/
def note (e : Extraction) (event : Event) : Extraction :=
  { e with events := e.events ++ [event] }

/-- One more rule, in the innermost open selector or in the file. -/
def attach (e : Extraction) (rule : Rule) : Extraction :=
  let e := e.note (.attached rule.typeName rule.place)
  match e.opened with
  | inner :: outer =>
      { e with opened := { inner with children := inner.children ++ [rule] } :: outer }
  | [] => { e with content := { e.content with rules := e.content.rules ++ [rule] } }

/-- One more declaration in the innermost open selector. -/
def declare (e : Extraction) (clause : Clause) (position : Position) : Extraction :=
  let e := e.note (.declared clause.typeName position)
  match e.opened with
  | inner :: outer =>
      { e with
        opened :=
          { inner with declarations := inner.declarations ++ [⟨clause, position⟩] } :: outer }
  | [] => e

/-- One more variable of the file. -/
def assign (e : Extraction) (a : Assignment) (position : Position) : Extraction :=
  let e :=
    if e.content.vars.any (·.name == a.name) then e.note (.repeated a.name position) else e
  let declared : Variable := ⟨a.name, .classify a.value, a.flags, position⟩
  { e with content := { e.content with vars := e.content.vars ++ [declared] } }

/-- One more import statement of the file. Its pieces that name no target make up one rule. -/
def addImports (e : Extraction) (statement : ImportStatement) (position : Position) : Extraction :=
  let directives := statement.targets.map (ImportDirective.mk · position)
  let e := { e with content := { e.content with imports := e.content.imports ++ directives } }
  if statement.plain.isEmpty then e
  else
    let text := "@import ".toList ++ Text.join ", ".toList statement.plain
    e.attach (.block ⟨1, position⟩ (.raw text))

/-- A statement outside all selectors: an import, a variable or plain text. -/
def fileStatement (e : Extraction) (text : Text) (position : Position) : Extraction :=
  match ImportStatement.ofStatement? text with
  | some statement => e.addImports statement position
  | none =>
    match Assignment.ofStatement? text with
    | some assignment => e.assign assignment position
    | none =>
      let e := if text.head? = some '@' then e else e.note (.anomaly text position)
      e.attach (.block ⟨1, position⟩ (.raw text))

/-- A statement inside a selector. -/
def bodyStatement (e : Extraction) (text : Text) (position : Position) : Extraction :=
  match Clause.ofStatement? text with
  | some clause => e.declare clause position
  | none => (e.note (.anomaly text position)).declare (.raw text) position

/-- A statement. An empty one is passed over. -/
def statement (e : Extraction) (text : Text) (position : Position) : Extraction :=
  if text.isEmpty then e
  else if e.opened.isEmpty then e.fileStatement text position
  else e.bodyStatement text position

/-- The extraction stops at a fault. -/
def fail (e : Extraction) (position : Position) (cause : Cause) : Except Failure Extraction :=
  .error ⟨⟨position, cause⟩, e.events⟩

/-- A block opens: a selector joins the stack, any other block is captured. -/
def openBlock (e : Extraction) (header : Text) (position : Position) :
    Except Failure Extraction :=
  if header.isEmpty then e.fail position .missingHeader
  else
    match Header.ofText header with
    | .selector text =>
        let e := e.note (.opened text ⟨e.depth, position⟩)
        .ok { e with opened := ⟨text, position, [], []⟩ :: e.opened }
    | _ => .ok { e with pending := some ⟨header, position, .empty⟩ }

/-- The innermost selector closes and joins the rules around it. -/
def closeBlock (e : Extraction) (position : Position) : Except Failure Extraction :=
  match e.opened with
  | [] => e.fail position .unexpectedClose
  | inner :: outer =>
      let e := { e with opened := outer }
      .ok (e.attach
        (.selector ⟨e.depth, inner.position⟩ inner.header inner.declarations inner.children))

/-- A captured block is complete. -/
def complete (e : Extraction) (header : Text) (position : Position) (body : Text) : Extraction :=
  let e := { e with pending := none }
  match capturedNode (!e.opened.isEmpty) header body with
  | .inl block => e.attach (.block ⟨e.depth, position⟩ block)
  | .inr clause => e.declare clause position

/-- One more segment of a block that is being captured. -/
def capture (e : Extraction) (p : Pending) (s : Segment) : Except Failure Extraction :=
  match s.terminator with
  | none => e.fail p.position .unclosedBlock
  | some m =>
      match p.capture.step s.text m with
      | .done body => .ok (e.complete p.header p.position body)
      | .more longer => .ok { e with pending := some { p with capture := longer } }

/-- One more segment outside captured blocks. The last statement of a body may stand without a
semicolon. -/
def advance (e : Extraction) (s : Segment) : Except Failure Extraction :=
  match s.terminator with
  | some .semicolon => .ok (e.statement s.text s.position)
  | some .openBrace => e.openBlock s.text s.position
  | some .closeBrace => (e.statement s.text s.position).closeBlock s.terminatorPosition
  | none =>
      match e.opened with
      | inner :: _ => e.fail inner.position (.unclosedSelector inner.header)
      | [] => .ok (e.statement s.text s.position)

/-- What one more reading of the source comes to. -/
def step (e : Extraction) (outcome : Except Fault Segment) : Except Failure Extraction :=
  match outcome with
  | .error fault => e.fail fault.position fault.cause
  | .ok s =>
      match e.pending with
      | some p => e.capture p s
      | none => e.advance s

/-- What a source holds. -/
def run (source : Text) : Except Failure Extraction :=
  ((Cursor.start source).scans.map Scan.outcome).foldlM step start

end Extraction

end Stylesheet
