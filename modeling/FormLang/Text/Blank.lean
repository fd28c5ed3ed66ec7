/-!
# `FormLang.Text.Blank` — white space

## Contents
- `isBlank`: the white space of Unicode together with the four information separators `U+001C`
  to `U+001F`.
- `strip`: a text without the blanks at its two ends.

The scanner has a narrower notion of its own (space, carriage return, tab and newline); the one
here is for lines that a person types.
-/

namespace FormLang.Text

/-- Closed ranges of code points, ascending and apart. -/
def blankRanges : List (Nat × Nat) :=
  [(0x09, 0x0D), (0x1C, 0x20), (0x85, 0x85), (0xA0, 0xA0), (0x1680, 0x1680), (0x2000, 0x200A),
   (0x2028, 0x2029), (0x202F, 0x202F), (0x205F, 0x205F), (0x3000, 0x3000)]

/-- Whether a code point lies in one of the closed ranges. -/
def inRanges (ranges : List (Nat × Nat)) (n : Nat) : Bool :=
  ranges.any fun r => r.1 ≤ n && n ≤ r.2

/-- Whether a character is white space. -/
def isBlank (c : Char) : Bool := inRanges blankRanges c.toNat

/-- The table adds to the four blanks of ASCII text and takes none away. -/
theorem isBlank_of_isWhitespace {c : Char} (h : c.isWhitespace = true) : isBlank c = true := by
  simp [Char.isWhitespace] at h
  rcases h with ((h | h) | h) | h <;> subst h <;> decide

/-- Twenty-nine characters are blank. -/
example : (blankRanges.map fun r => r.2 + 1 - r.1).sum = 29 := by decide

/-- The characters from the first that is not blank to the last that is not. -/
def stripChars (cs : List Char) : List Char :=
  ((cs.dropWhile isBlank).reverse.dropWhile isBlank).reverse

/-- The text without the blanks at its two ends. -/
def strip (s : String) : String := String.ofList (stripChars s.toList)

/-- A text between two characters that are not blank keeps all its characters. -/
theorem stripChars_cons_concat {a b : Char} (m : List Char) (ha : isBlank a = false)
    (hb : isBlank b = false) : stripChars (a :: (m ++ [b])) = a :: (m ++ [b]) := by
  simp [stripChars, ha, hb]

end FormLang.Text
