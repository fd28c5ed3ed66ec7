import FormLang.Diagnostic
import FormLang.Source.Piece
import FormLang.Token.Basic

/-!
# `FormLang.Token.Scan` — the tokens of a program text

Each piece of the text yields a token, a diagnostic, or neither. Both carry the line on which the
piece begins.

## Contents
- `Piece.lexeme?`: the lexeme of a piece, if it has one.
- `Piece.fault?`: the diagnostic for a piece, if it deserves one.
- `tokensFrom`, `faultsFrom`: the same for consecutive pieces from a given line on.
- `scan`: the tokens and diagnostics of a text.
-/

namespace FormLang

namespace Piece

/-- The lexeme that a piece stands for. A run of digits that is too long for a number has none. -/
def lexeme? : Piece → Option Lexeme
  | lparen => some .lparen
  | rparen => some .rparen
  | quoted content => some (.text (String.ofList content))
  | digits ds => (Numeral.read? ds).map fun n => .number n
  | word cs => some (.name (String.ofList cs))
  | blank _ | newline | other _ | unclosed _ => none

/-- What there is to report about a piece that begins on the given line. -/
def fault? (line : Nat) : Piece → Option Diagnostic
  | digits ds => match Numeral.read? ds with
      | some _ => none
      | none => some (.numberTooLong line)
  | other c => some (.unknownCharacter line c)
  | unclosed _ => some (.unterminatedText line)
  | lparen | rparen | quoted _ | word _ | blank _ | newline => none

end Piece

/-- The tokens of consecutive pieces of which the first begins on the given line, and the end of the
program after them. -/
def tokensFrom (line : Nat) : List Piece → List Token
  | [] => [⟨.eof, line⟩]
  | p :: ps =>
      let rest := tokensFrom (line + p.lines) ps
      match p.lexeme? with
      | some x => ⟨x, line⟩ :: rest
      | none => rest

/-- What there is to report about consecutive pieces of which the first begins on the given line. -/
def faultsFrom (line : Nat) : List Piece → List Diagnostic
  | [] => []
  | p :: ps => (p.fault? line).toList ++ faultsFrom (line + p.lines) ps

/-- The result of scanning: tokens, the last of which is the end of the program, and what there is
to report. -/
structure Scan where
  tokens : List Token
  diagnostics : List Diagnostic
deriving DecidableEq

/-- The tokens of a text and what there is to report about it. Nothing stops a scan. -/
def scan (src : String) : Scan :=
  let pieces := cut src.toList
  ⟨tokensFrom 1 pieces, faultsFrom 1 pieces⟩

end FormLang
