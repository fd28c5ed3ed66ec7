import FormLang.Text.Newline

/-!
# `FormLang.Source.Piece` — a program text cut into pieces

A program text falls into pieces: parentheses, blanks, newlines, quoted texts, runs of digits, runs
that begin with a letter, and single characters of no meaning. Runs are as long as possible. A quote
without a partner takes the rest of the text with it.

## Contents
- `Piece`: the pieces, with `Piece.chars`, the characters a piece consists of.
- `Growing`: the piece under way while the text is read from left to right.
- `cut`: the pieces of a text.
- `chars_cut`: the pieces of a text are the text.
-/

namespace FormLang

open Text

/-- A piece of a program text. -/
inductive Piece where
  | lparen
  | rparen
  /-- A space, a carriage return or a tab. -/
  | blank (c : Char)
  | newline
  /-- A text between two quotes, given without them. -/
  | quoted (content : List Char)
  | digits (ds : List Char)
  /-- A letter and the letters and digits that follow it. -/
  | word (cs : List Char)
  /-- A character that begins no other piece. -/
  | other (c : Char)
  /-- All that follows a quote without a partner. -/
  | unclosed (content : List Char)
deriving DecidableEq

namespace Piece

/-- The characters of the piece. -/
def chars : Piece → List Char
  | lparen => ['(']
  | rparen => [')']
  | blank c => [c]
  | newline => ['\n']
  | quoted content => '"' :: (content ++ ['"'])
  | digits ds => ds
  | word cs => cs
  | other c => [c]
  | unclosed content => '"' :: content

/-- The number of newlines in the piece. -/
def lines (p : Piece) : Nat := newlines p.chars

end Piece

/-- Whether a character separates words without ending the line. -/
def isSeparator (c : Char) : Bool := c == ' ' || c == '\r' || c == '\t'

/-- The piece under way: none, or one that may still grow, with its characters last first. -/
inductive Growing where
  | nothing
  | digits (rev : List Char)
  | word (rev : List Char)
  | quoted (rev : List Char)

namespace Growing

/-- The characters taken into the piece under way. -/
def chars : Growing → List Char
  | nothing => []
  | digits rev => rev.reverse
  | word rev => rev.reverse
  | quoted rev => '"' :: rev.reverse

@[simp] theorem chars_nothing : nothing.chars = [] := rfl

@[simp] theorem chars_digits (rev : List Char) : (digits rev).chars = rev.reverse := rfl

@[simp] theorem chars_word (rev : List Char) : (word rev).chars = rev.reverse := rfl

@[simp] theorem chars_quoted (rev : List Char) : (quoted rev).chars = '"' :: rev.reverse := rfl

/-- The piece under way when the text ends. -/
def close : Growing → List Piece
  | nothing => []
  | digits rev => [.digits rev.reverse]
  | word rev => [.word rev.reverse]
  | quoted rev => [.unclosed rev.reverse]

/-- What a character begins: a piece of its own, or one that may grow. -/
def start (c : Char) : List Piece × Growing :=
  if c = '(' then ([.lparen], nothing)
  else if c = ')' then ([.rparen], nothing)
  else if isSeparator c then ([.blank c], nothing)
  else if c = '\n' then ([.newline], nothing)
  else if c = '"' then ([], quoted [])
  else if c.isDigit then ([], digits [c])
  else if c.isAlpha then ([], word [c])
  else ([.other c], nothing)

/-- Takes one more character: the pieces that it completes, and the piece then under way. -/
def push (g : Growing) (c : Char) : List Piece × Growing :=
  match g with
  | nothing => start c
  | digits rev =>
      if c.isDigit then ([], digits (c :: rev))
      else (.digits rev.reverse :: (start c).1, (start c).2)
  | word rev =>
      if c.isAlphanum then ([], word (c :: rev))
      else (.word rev.reverse :: (start c).1, (start c).2)
  | quoted rev =>
      if c = '"' then ([.quoted rev.reverse], nothing) else ([], quoted (c :: rev))

/-- What a character begins consists of that character. -/
theorem chars_start (c : Char) : (start c).1.flatMap Piece.chars ++ (start c).2.chars = [c] := by
  unfold start
  repeat' split
  all_goals simp_all [Piece.chars]

/-- A character taken is a character kept. -/
theorem chars_push (g : Growing) (c : Char) :
    (g.push c).1.flatMap Piece.chars ++ (g.push c).2.chars = g.chars ++ [c] := by
  cases g with
  | nothing => simpa [push] using chars_start c
  | digits rev =>
      by_cases h : c.isDigit
      · simp [push, h]
      · simp [push, h, Piece.chars, chars_start c]
  | word rev =>
      by_cases h : c.isAlphanum
      · simp [push, h]
      · simp [push, h, Piece.chars, chars_start c]
  | quoted rev => by_cases h : c = '"' <;> simp [push, h, Piece.chars]

/-- The end of the text loses nothing. -/
theorem chars_close (g : Growing) : g.close.flatMap Piece.chars = g.chars := by
  cases g <;> simp [close, Piece.chars]

end Growing

/-- The pieces of a text that follows the piece under way. -/
def cutFrom (g : Growing) : List Char → List Piece
  | [] => g.close
  | c :: cs => (g.push c).1 ++ cutFrom (g.push c).2 cs

/-- The pieces of a text. -/
def cut (cs : List Char) : List Piece := cutFrom .nothing cs

/-- Read on, the pieces hold what was under way and then the text. -/
theorem chars_cutFrom (g : Growing) (cs : List Char) :
    (cutFrom g cs).flatMap Piece.chars = g.chars ++ cs := by
  induction cs generalizing g with
  | nil => simpa [cutFrom] using g.chars_close
  | cons c cs ih =>
      have h := g.chars_push c
      rw [cutFrom, List.flatMap_append, ih, ← List.append_assoc, h, List.append_assoc]
      rfl

/-- The pieces of a text are the text: no character is lost, repeated or moved. -/
theorem chars_cut (cs : List Char) : (cut cs).flatMap Piece.chars = cs := by
  simpa [cut] using chars_cutFrom .nothing cs

end FormLang
