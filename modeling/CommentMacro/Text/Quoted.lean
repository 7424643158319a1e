import CommentMacro.Text.Printable

/-!
# Quoted text

A quoted text shows every character of a text on one line, unambiguously.

- The quotation mark is the apostrophe, unless the text holds an apostrophe and
  no double quote.
- A backslash stands before the quotation mark and before itself; tab, line feed
  and carriage return are written with a letter.
- Every other character that is not printable is written with the least of two,
  four or eight hexadecimal digits that hold its code point.
-/

namespace CommentMacro.Text

/-- The quotation mark that a text needs the fewest escapes with. -/
def quotationMark (t : Text) : Char :=
  if t.contains '\'' && !t.contains '"' then '"' else '\''

/-- A number in lower case hexadecimal, filled up with zeros to `width` digits. -/
def hexadecimal (width n : Nat) : Text :=
  let digits := Nat.toDigits 16 n
  List.replicate (width - digits.length) '0' ++ digits

/-- One character as it stands between the quotation marks. -/
def escapeChar (mark c : Char) : Text :=
  if c = mark ∨ c = '\\' then ['\\', c]
  else if c = '\t' then ['\\', 't']
  else if c = '\n' then ['\\', 'n']
  else if c = '\r' then ['\\', 'r']
  else if isPrintable c then [c]
  else if c.toNat < 0x100 then '\\' :: 'x' :: hexadecimal 2 c.toNat
  else if c.toNat < 0x10000 then '\\' :: 'u' :: hexadecimal 4 c.toNat
  else '\\' :: 'U' :: hexadecimal 8 c.toNat

def quoted (t : Text) : Text :=
  let mark := quotationMark t
  mark :: t.flatMap (escapeChar mark) ++ [mark]

/-- Texts as a bracketed list of quoted texts. -/
def quotedList (ts : List Text) : Text :=
  '[' :: join [',', ' '] (ts.map quoted) ++ [']']

example : quoted "it's".toList = "\"it's\"".toList := by decide
example : quoted "a\\\n\x07".toList = "'a\\\\\\n\\x07'".toList := by decide

end CommentMacro.Text
