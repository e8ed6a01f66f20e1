import Stylesheet.Text.Basic

/-! Groups and separators.

A separator counts only where no quote and no bracket is open. `Nesting` is what has to be known
about the characters read so far to decide that, and `splitTopLevel` cuts a text at the separators
that count. `group` reads the inside of a parenthesis up to the one that closes it. -/

namespace Stylesheet

/-- What is open after the characters read so far. -/
structure Nesting where
  /-- Number of brackets open. -/
  depth : Nat
  /-- The quote that is open, if one is. -/
  quote : Option Char
  /-- The character read last. -/
  last : Char
deriving DecidableEq, Repr

namespace Nesting

/-- Nothing is open before the first character. -/
def start : Nesting := ⟨0, none, '\x00'⟩

/-- Whether a character opens a bracket: a brace does so only after `#`. -/
def opens (n : Nesting) (c : Char) : Bool :=
  c == '(' || c == '[' || (c == '{' && n.last == '#')

/-- Whether a character closes a bracket. -/
def closes (c : Char) : Bool :=
  c == ')' || c == ']' || c == '}'

/-- Whether a character is a quote. -/
def quotes (c : Char) : Bool :=
  c == '"' || c == '\''

/-- The nesting after one more character. An open quote ends at its own kind, unless a backslash
stands right before it; a closing bracket with nothing open is passed over. -/
def next (n : Nesting) (c : Char) : Nesting :=
  match n.quote with
  | some q => ⟨n.depth, if c = q ∧ n.last ≠ '\\' then none else some q, c⟩
  | none =>
      if quotes c then ⟨n.depth, some c, c⟩
      else if n.opens c then ⟨n.depth + 1, none, c⟩
      else if closes c then ⟨n.depth - 1, none, c⟩
      else ⟨n.depth, none, c⟩

/-- Whether a character separates two pieces: it is the separator, it is not itself a quote or a
bracket, and nothing is open. -/
def separates (n : Nesting) (separator c : Char) : Bool :=
  n.quote.isNone && n.depth == 0 && c == separator && !quotes c && !n.opens c && !closes c

end Nesting

namespace Text

/-- The pieces of a text between the separators that count, as they are written. -/
def pieces (separator : Char) : Nesting → Text → List Text
  | _, [] => [[]]
  | n, c :: rest =>
      let others := pieces separator (n.next c) rest
      if n.separates separator c then [] :: others
      else
        match others with
        | [] => [[c]]
        | piece :: others => (c :: piece) :: others

/-- The pieces of a text between the separators that count, trimmed, without the empty ones. -/
def splitTopLevel (separator : Char) (t : Text) : List Text :=
  ((pieces separator .start t).map trim).filter (!·.isEmpty)

/-- What precedes the parenthesis that closes the one already open, with `depth` further ones open
inside it; nothing if it is not closed. -/
def closed? (depth : Nat) : Text → Option Text
  | [] => none
  | c :: rest =>
      if c = '(' then (closed? (depth + 1) rest).map (c :: ·)
      else if c = ')' then
        match depth with
        | 0 => some []
        | inner + 1 => (closed? inner rest).map (c :: ·)
      else (closed? depth rest).map (c :: ·)

/-- The inside of a parenthesis, given the text that follows it. One that is never closed reaches
to the end. -/
def group (t : Text) : Text :=
  (closed? 0 t).getD t

/-- The inside of the parenthesis at a byte offset of the text. -/
def groupAt (offset : Nat) (t : Text) : Text :=
  ((fromByte? (offset + 1) t).map group).getD []

/-- Whether the text stands between two quotes of one kind. -/
def isQuoted : Text → Bool
  | [] => false
  | q :: rest => Nesting.quotes q && rest.getLast? == some q

/-- The trimmed text without the quotes around it. -/
def unquote (t : Text) : Text :=
  let t := t.trim
  if t.isQuoted then t.tail.dropLast else t

end Text

end Stylesheet
