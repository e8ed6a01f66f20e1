import Stylesheet.Statement.Clause

/-! Import statements.

Quoted targets name other style sheets, unless they are addresses or plain style sheets; everything
else is kept as it is written. -/

namespace Stylesheet

/-- The pieces of an import statement, each list in the order of the statement. -/
structure ImportStatement where
  /-- The targets, without their quotes. -/
  targets : List Text
  /-- The pieces that name no target. -/
  plain : List Text
deriving DecidableEq, Repr

namespace ImportStatement

/-- Whether a target is an address or a plain style sheet. -/
def isPlain (target : Text) : Bool :=
  (Text.before? ".css".toList target).isSome ||
    ["http://", "https://", "//", "url("].any fun lead =>
      (Text.after? lead.toList target).isSome

/-- The target that a piece names, if it names one. -/
def target? (piece : Text) : Option Text :=
  if piece.isQuoted && !isPlain piece.unquote then some piece.unquote else none

/-- The pieces of a statement, if it is an import. -/
def ofStatement? (t : Text) : Option ImportStatement :=
  (Text.directive? "@import".toList t.trim).map fun rest =>
    let pieces := Text.splitTopLevel ',' rest
    ⟨pieces.filterMap target?, pieces.filter fun piece => (target? piece).isNone⟩

end ImportStatement

end Stylesheet
