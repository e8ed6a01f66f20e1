/-! Texts and the cuts made in them.

A text is a list of characters. Every cut below keeps the characters it does not name: a text is
trimmed, stripped of a leading or trailing word, or divided at the first or last place where a
character stands. -/

namespace Stylesheet

/-- A text, read character by character. -/
abbrev Text := List Char

/-- White space of every script: the Unicode property `White_Space`. -/
def isBlank (c : Char) : Bool :=
  let code := c.toNat
  (9 ≤ code && code ≤ 13) || code == 0x20 || code == 0x85 || code == 0xA0 || code == 0x1680 ||
    (0x2000 ≤ code && code ≤ 0x200A) || code == 0x2028 || code == 0x2029 || code == 0x202F ||
    code == 0x205F || code == 0x3000

namespace Text

/-- The text without its leading blanks. -/
def trimStart (t : Text) : Text :=
  t.dropWhile isBlank

/-- The text without its trailing blanks. -/
def trimEnd (t : Text) : Text :=
  (t.reverse.dropWhile isBlank).reverse

/-- The text without the blanks around it. -/
def trim (t : Text) : Text :=
  trimEnd (trimStart t)

/-- Whether the text has nothing but blanks. -/
def blank (t : Text) : Bool :=
  t.all isBlank

/-- The longest pieces of the text without a blank in them. -/
def words (t : Text) : List Text :=
  (t.splitOnP isBlank).filter (!·.isEmpty)

/-- What follows `lead`, when the text starts with it. -/
def after? (lead t : Text) : Option Text :=
  lead.isPrefixOf? t

/-- What precedes `last`, when the text ends with it. -/
def before? (last t : Text) : Option Text :=
  (after? last.reverse t.reverse).map List.reverse

/-- What follows the first place where `part` stands in the text. -/
def afterFirst? (part : Text) : Text → Option Text
  | [] => after? part []
  | c :: rest => (after? part (c :: rest)).or (afterFirst? part rest)

/-- Whether `part` stands anywhere in the text. -/
def mentions (part t : Text) : Bool :=
  (afterFirst? part t).isSome

/-- The text before and the text after the first `mark`. -/
def splitFirst? (mark : Char) : Text → Option (Text × Text)
  | [] => none
  | c :: rest =>
      if c = mark then some ([], rest)
      else (splitFirst? mark rest).map fun (before, after) => (c :: before, after)

/-- The text before and the text after the last `mark`. -/
def splitLast? (mark : Char) (t : Text) : Option (Text × Text) :=
  (splitFirst? mark t.reverse).map fun (after, before) => (before.reverse, after.reverse)

/-- The text without any number of copies of `last` at its end. -/
def withoutEndings (last t : Text) : Text :=
  match before? last t with
  | some shorter => if shorter.length < t.length then withoutEndings last shorter else t
  | none => t
termination_by t.length

/-- The texts put together with `between` where two of them meet. -/
def join (between : Text) (parts : List Text) : Text :=
  between.intercalate parts

/-- The decimal digits of a number. -/
def ofNat (n : Nat) : Text :=
  Nat.toDigits 10 n

/-- Number of bytes the text takes in UTF-8. -/
def byteLength (t : Text) : Nat :=
  t.foldl (fun n c => n + c.utf8Size) 0

/-- What is left of the text from a byte offset on, when a character starts there or the text
ends there. -/
def fromByte? (offset : Nat) : Text → Option Text
  | [] => if offset = 0 then some [] else none
  | c :: rest =>
      if offset = 0 then some (c :: rest)
      else if offset < c.utf8Size then none
      else fromByte? (offset - c.utf8Size) rest

end Text

/-- A letter of the Latin alphabet without marks. -/
def isLetter (c : Char) : Bool :=
  ('a' ≤ c && c ≤ 'z') || ('A' ≤ c && c ≤ 'Z')

/-- A digit from `0` to `9`. -/
def isDigit (c : Char) : Bool :=
  '0' ≤ c && c ≤ '9'

end Stylesheet
