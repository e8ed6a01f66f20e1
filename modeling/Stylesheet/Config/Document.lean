import Stylesheet.Text.Basic
import Stylesheet.Value.Color

/-! Strict JSON documents, read as far as a configuration needs them.

Numbers and truth values are only checked. A string may be well formed and still be no text, when an
escape in it names half of a surrogate pair; whether that matters is left to the reader of the
document. -/

namespace Stylesheet

/-- A JSON document. -/
inductive Document where
  | null
  /-- A number or a truth value. -/
  | scalar
  /-- A string, and its text if it is one. -/
  | string (text : Option Text)
  | array (items : List Document)
  | object (members : List (Option Text × Document))

namespace Document

/-- White space between the tokens of a document. -/
def isSpace (c : Char) : Bool :=
  c == ' ' || c == '\t' || c == '\n' || c == '\r'

/-- A text from its next token on. -/
def skip (t : Text) : Text :=
  t.dropWhile isSpace

/-- A unit of a string: a character, or a number given in hexadecimal digits. -/
abbrev Code := Char ⊕ Nat

/-- The number that four hexadecimal digits stand for. -/
def hexNumber? : List Char → Option Nat
  | [a, b, c, d] => do
      let digits ← [a, b, c, d].mapM Color.digit?
      return digits.foldl (fun n digit => 16 * n + digit) 0
  | _ => none

/-- The character that a letter behind a backslash stands for. -/
def escape? : Char → Option Char
  | '"' => some '"'
  | '\\' => some '\\'
  | '/' => some '/'
  | 'b' => some '\x08'
  | 'f' => some '\x0c'
  | 'n' => some '\n'
  | 'r' => some '\r'
  | 't' => some '\t'
  | _ => none

/-- The units of a string up to its closing quote, and what follows. -/
def codes? : Text → Option (List Code × Text)
  | [] => none
  | '"' :: rest => some ([], rest)
  | '\\' :: 'u' :: a :: b :: c :: d :: rest => do
      let n ← hexNumber? [a, b, c, d]
      let (codes, rest) ← codes? rest
      return (.inr n :: codes, rest)
  | '\\' :: c :: rest => do
      let e ← escape? c
      let (codes, rest) ← codes? rest
      return (.inl e :: codes, rest)
  | c :: rest =>
      if c.toNat < 32 || c == '\\' then none
      else do
        let (codes, rest) ← codes? rest
        return (.inl c :: codes, rest)

/-- Whether a number is the first half of a surrogate pair. -/
def isHigh (n : Nat) : Bool := 0xD800 ≤ n && n ≤ 0xDBFF

/-- Whether a number is the second half of a surrogate pair. -/
def isLow (n : Nat) : Bool := 0xDC00 ≤ n && n ≤ 0xDFFF

/-- The text of a string, if every half of a pair has its other half. -/
def text? : List Code → Option Text
  | [] => some []
  | .inl c :: codes => (text? codes).map (c :: ·)
  | .inr n :: codes =>
      if isHigh n then
        match codes with
        | .inr m :: codes =>
            if isLow m then
              (text? codes).map (Char.ofNat (0x10000 + (n - 0xD800) * 0x400 + (m - 0xDC00)) :: ·)
            else none
        | _ => none
      else if isLow n then none
      else (text? codes).map (Char.ofNat n :: ·)

/-- What follows a run of at least one digit. -/
def digits? (t : Text) : Option Text :=
  if (t.takeWhile isDigit).isEmpty then none else some (t.dropWhile isDigit)

/-- What follows the whole part of a number: a zero, or digits that do not start with one. -/
def whole? : Text → Option Text
  | '0' :: rest => if (rest.takeWhile isDigit).isEmpty then some rest else none
  | t => digits? t

/-- What follows a fraction, if there is one. -/
def fraction? : Text → Option Text
  | '.' :: rest => digits? rest
  | t => some t

/-- What follows an exponent, if there is one. -/
def exponent? : Text → Option Text
  | c :: rest =>
      if c == 'e' || c == 'E' then
        match rest with
        | '+' :: rest => digits? rest
        | '-' :: rest => digits? rest
        | rest => digits? rest
      else some (c :: rest)
  | [] => some []

/-- What follows a number. -/
def number? (t : Text) : Option Text :=
  ((whole? ((Text.after? ['-'] t).getD t)).bind fraction?).bind exponent?

/-- A value that is no string, array or object, and what follows. -/
def plain? (t : Text) : Option (Document × Text) :=
  match Text.after? "null".toList t with
  | some rest => some (.null, rest)
  | none =>
      let word := (Text.after? "true".toList t).or (Text.after? "false".toList t)
      (word.or (number? t)).map fun rest => (.scalar, rest)

mutual

/-- The value at the front of a text and what follows, with a bound on the steps taken. -/
def value? : Nat → Text → Option (Document × Text)
  | 0, _ => none
  | steps + 1, t =>
      match skip t with
      | '"' :: rest => do
          let (codes, rest) ← codes? rest
          return (.string (text? codes), rest)
      | '[' :: rest =>
          match skip rest with
          | ']' :: rest => some (.array [], rest)
          | rest => do
              let (items, rest) ← items? steps rest
              return (.array items, rest)
      | '{' :: rest =>
          match skip rest with
          | '}' :: rest => some (.object [], rest)
          | rest => do
              let (members, rest) ← members? steps rest
              return (.object members, rest)
      | rest => plain? rest

/-- The items of an array up to its end, and what follows. -/
def items? : Nat → Text → Option (List Document × Text)
  | 0, _ => none
  | steps + 1, t => do
      let (item, rest) ← value? steps t
      match skip rest with
      | ']' :: rest => return ([item], rest)
      | ',' :: rest => do
          let (items, rest) ← items? steps rest
          return (item :: items, rest)
      | _ => none

/-- The members of an object up to its end, and what follows. -/
def members? : Nat → Text → Option (List (Option Text × Document) × Text)
  | 0, _ => none
  | steps + 1, t =>
      match skip t with
      | '"' :: rest => do
          let (codes, rest) ← codes? rest
          match skip rest with
          | ':' :: rest => do
              let (item, rest) ← value? steps rest
              match skip rest with
              | '}' :: rest => return ([(text? codes, item)], rest)
              | ',' :: rest => do
                  let (members, rest) ← members? steps rest
                  return ((text? codes, item) :: members, rest)
              | _ => none
          | _ => none
      | _ => none

end

/-- The document that makes up a whole text. Every second step takes a character off the text, so
twice its length bounds the steps. -/
def ofText? (t : Text) : Option Document := do
  let (document, rest) ← value? (2 * t.length + 2) t
  if (skip rest).isEmpty then some document else none

end Document

end Stylesheet
