import Stylesheet.Text.Basic
import Stylesheet.Text.Hidden

/-! Texts in quotes, as messages show them.

Quotes and backslashes are escaped, the usual control characters have short names, and every other
character without a shape of its own is shown by its number in lower-case hexadecimal digits. -/

namespace Stylesheet.Text

/-- One character inside a quoted text. -/
def quotedChar (c : Char) : Text :=
  if c = '\x00' then ['\\', '0']
  else if c = '\t' then ['\\', 't']
  else if c = '\r' then ['\\', 'r']
  else if c = '\n' then ['\\', 'n']
  else if c = '"' then ['\\', '"']
  else if c = '\\' then ['\\', '\\']
  else if isHidden c then ['\\', 'u', '{'] ++ Nat.toDigits 16 c.toNat ++ ['}']
  else [c]

/-- The text in double quotes. -/
def quoted (t : Text) : Text :=
  '"' :: t.flatMap quotedChar ++ ['"']

/-- A list of quoted texts in square brackets. -/
def quotedList (ts : List Text) : Text :=
  '[' :: join [',', ' '] (ts.map quoted) ++ [']']

end Stylesheet.Text
