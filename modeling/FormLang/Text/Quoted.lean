import FormLang.Text.Printable

/-!
# `FormLang.Text.Quoted` — text between quotes, on one line

## Contents
- `quoteMark`: which of the two quotation marks encloses a text.
- `escaped`: how one character is written between the marks.
- `quoted`: the whole text with its marks.

Every character that would end the text or that cannot be shown is written with a backslash, so
the quoted form of any text is a single line of printable characters.
-/

namespace FormLang.Text

/-- The double mark if the text has a single mark and no double one, else the single mark. -/
def quoteMark (cs : List Char) : Char :=
  if cs.contains '\'' && !cs.contains '"' then '"' else '\''

/-- The number in lower-case hexadecimal digits, zeros in front up to the given width. -/
def hexDigits (width n : Nat) : List Char :=
  let ds := Nat.toDigits 16 n
  List.replicate (width - ds.length) '0' ++ ds

/-- The character as it stands between two marks: with a backslash if it is the mark, a backslash
or a line or tab control, by its code point if it cannot be shown, and as it is otherwise. -/
def escaped (mark c : Char) : List Char :=
  if c = mark || c = '\\' then ['\\', c]
  else if c = '\n' then ['\\', 'n']
  else if c = '\r' then ['\\', 'r']
  else if c = '\t' then ['\\', 't']
  else if isPrintable c then [c]
  else if c.toNat < 0x100 then '\\' :: 'x' :: hexDigits 2 c.toNat
  else if c.toNat < 0x10000 then '\\' :: 'u' :: hexDigits 4 c.toNat
  else '\\' :: 'U' :: hexDigits 8 c.toNat

/-- The text between quotation marks. -/
def quoted (s : String) : String :=
  let cs := s.toList
  let mark := quoteMark cs
  String.ofList (mark :: (cs.flatMap (escaped mark) ++ [mark]))

example : quoted "it's" = "\"it's\"" := by decide +kernel
example : quoted "'\"\n" = "'\\'\"\\n'" := by decide +kernel

end FormLang.Text
