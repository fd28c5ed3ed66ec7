/-!
# `FormLang.Diagnostic` — what is reported about a program

## Contents
- `Diagnostic`: one constructor per cause.
- `Diagnostic.message`: the wording.
-/

namespace FormLang

/-- A remark on a program, made while it is scanned, built into a tree or evaluated. -/
inductive Diagnostic where
  /-- A character that begins no token stands on the line. -/
  | unknownCharacter (line : Nat) (c : Char)
  /-- A text that begins on the line has no closing quote. -/
  | unterminatedText (line : Nat)
  /-- A number on the line has too many digits. -/
  | numberTooLong (line : Nat)
  /-- A program does not begin with a parenthesis. -/
  | missingParen
  /-- A malformed part of a tree, which brings its own wording, is evaluated. -/
  | malformed (message : String)
  /-- A command has no meaning. -/
  | unknownCommand (name : String)
  /-- An operand is not of a kind that the operation takes. -/
  | invalidOperand (noun : String)
  /-- An operand after the first is zero in a division. -/
  | divisionByZero
  /-- A number is too large for the operation. -/
  | numericOverflow
  /-- A command has too few arguments. -/
  | tooFewParameters
  /-- A name to be bound is neither a name nor a text. -/
  | invalidName
deriving DecidableEq

namespace Diagnostic

/-- A remark with the line it is about in front. -/
def atLine (line : Nat) (text : String) : String := "line " ++ Nat.repr line ++ ": " ++ text

/-- The wording of a diagnostic. -/
def message : Diagnostic → String
  | unknownCharacter line c => atLine line ("unknown character '" ++ String.singleton c ++ "'")
  | unterminatedText line => atLine line "unterminated string"
  | numberTooLong line => atLine line "number too long"
  | missingParen => "left parenthesis not found"
  | malformed message => message
  | unknownCommand name => "unknown command '" ++ name ++ "'"
  | invalidOperand noun => "invalid " ++ noun
  | divisionByZero => "division by zero"
  | numericOverflow => "numeric overflow"
  | tooFewParameters => "insufficient amount of parameters"
  | invalidName => "variable name must be string or identifier"

end Diagnostic

end FormLang
