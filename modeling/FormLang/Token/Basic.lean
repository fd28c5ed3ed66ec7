import FormLang.Failure

/-!
# `FormLang.Token` — the words of a program

## Contents
- `Lexeme`: a parenthesis, a number, a text, a name, or the end of the program.
- `Token`: a lexeme and the line on which it begins.
- `Token.dump`: a token written out for inspection.
-/

namespace FormLang

/-- A word of a program. -/
inductive Lexeme where
  | lparen
  | rparen
  | number (n : Int)
  | text (s : String)
  | name (s : String)
  | eof
deriving DecidableEq

/-- A word with the line on which it begins; lines count from one. -/
structure Token where
  lexeme : Lexeme
  line : Nat := 1
deriving DecidableEq

/-- The kinds of lexeme. -/
inductive Lexeme.Kind where
  | lparen
  | rparen
  | number
  | text
  | name
  | eof
deriving DecidableEq

namespace Lexeme

/-- The label of a kind in a dump. -/
def Kind.label : Kind → String
  | .lparen => "LPAREN"
  | .rparen => "RPAREN"
  | .number => "NUMBER"
  | .text => "STRING"
  | .name => "IDENTIFIER"
  | .eof => "EOF"

/-- The kind of a lexeme. -/
def kind : Lexeme → Kind
  | lparen => .lparen
  | rparen => .rparen
  | number _ => .number
  | text _ => .text
  | name _ => .name
  | eof => .eof

/-- What a lexeme carries: a number, or the characters of a text or a name. -/
def payload? : Lexeme → Option Value
  | number n => some (.int n)
  | text s | name s => some (.text s)
  | lparen | rparen | eof => none

end Lexeme

namespace Token

/-- A dump of any kind with any payload and line. It fails if the payload has no literal. -/
def describe (kind : Lexeme.Kind) (payload : Option Value) (line : Int) : Except Failure String := do
  let inner ← match payload with
    | none => pure ""
    | some v => match v.literal? with
        | some literal => pure (literal ++ ", ")
        | none => throw .tooManyDigits
  pure ("Token(" ++ kind.label ++ ", " ++ inner ++ "line=" ++ Numeral.decimal line ++ ")")

/-- The token written out with its kind, its payload as a literal, and its line. -/
def dump (t : Token) : Except Failure String :=
  describe t.lexeme.kind t.lexeme.payload? t.line

end Token

end FormLang
