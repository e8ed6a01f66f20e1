import Stylesheet.Text.Basic

/-! Paths as they are spelled.

A path is a text with its parts divided by slashes. Joining and taking the parent keep the spelling
of what they do not touch; two spellings are the same path if they have the same components, where
repeated slashes and inner dots do not count. -/

namespace Stylesheet

/-- A path as it is spelled. -/
abbrev Path := Text

namespace Path

/-- The parts of a path between its slashes, empty ones included. -/
def parts (p : Path) : List Text :=
  p.splitOnP (· == '/')

/-- Whether a part stands for no step: it is empty or a dot. -/
def isTrivial (part : Text) : Bool :=
  part.isEmpty || part == ['.']

/-- Whether a path starts at the root. -/
def isAbsolute (p : Path) : Bool :=
  p.head? == some '/'

/-- Whether a path starts with a dot as a part of its own. -/
def startsWithDot (p : Path) : Bool :=
  p.parts.head? == some ['.']

/-- The steps of a path. The root and a dot at the very start count as steps. -/
def components (p : Path) : List Text :=
  let steps := p.parts.filter (!isTrivial ·)
  if p.isAbsolute then ['/'] :: steps
  else if p.startsWithDot then ['.'] :: steps
  else steps

/-- Whether two spellings are the same path. -/
def same (p q : Path) : Bool :=
  p.components == q.components

/-- A path taken from another one on. An absolute path stands for itself. -/
def join (base p : Path) : Path :=
  if p.isAbsolute then p
  else
    match base.getLast? with
    | none => p
    | some last => if last = '/' then base ++ p else base ++ '/' :: p

/-- The parts up to the last one that is a step. -/
def dropTrivial (parts : List Text) : List Text :=
  (parts.reverse.dropWhile isTrivial).reverse

/-- The path without its last step and the slashes and dots next to it. -/
def parent? (p : Path) : Option Path :=
  let head : Text := if p.isAbsolute then ['/'] else if p.startsWithDot then ['.'] else []
  let body := dropTrivial ((if head.isEmpty then p.parts else p.parts.drop 1))
  if body.isEmpty then if head = ['.'] then some [] else none
  else
    let kept := dropTrivial body.dropLast
    if head = ['.'] && !kept.isEmpty then some (head ++ '/' :: Text.join ['/'] kept)
    else some (head ++ Text.join ['/'] kept)

end Path

end Stylesheet
