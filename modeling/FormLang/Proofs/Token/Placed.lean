import FormLang.Proofs.Source.Maximal
import FormLang.Proofs.Token.Scan

/-!
# `FormLang.Proofs.Token.Placed` — what a scan makes of each piece, and on which line

The scanner carries the line along from piece to piece. Here the line of a piece is what it means: one
more than the number of newlines in the text before the piece, whether they stand between tokens or
inside quotes. A scan is then told piece by piece, each with the text before it.

## Contents
- `Placed`, `placed`: pieces with the text before each of them.
- `Placed.line`, `Placed.tokens`, `Placed.remarks`: what there is for a piece at its place.
- `tokensFrom_placed`, `faultsFrom_placed`: a scan goes through the pieces in order.
- `scan_accounts`: every text has one cutting, and its scan is that of the pieces at their places.
-/

namespace FormLang

open Text

/-- A piece and the text before it. -/
structure Placed where
  before : List Char
  piece : Piece

/-- Consecutive pieces with the text before each, the first of them following the given text. -/
def placed (before : List Char) : List Piece → List Placed
  | [] => []
  | p :: ps => ⟨before, p⟩ :: placed (before ++ p.chars) ps

namespace Placed

/-- The line on which the piece begins. -/
def line (q : Placed) : Nat := 1 + newlines q.before

/-- The token of the piece: a parenthesis, the text between two quotes, a run of at most 4300 digits with
the number it stands for, or a word. -/
def tokens (q : Placed) : List Token :=
  match q.piece with
  | .lparen => [⟨.lparen, q.line⟩]
  | .rparen => [⟨.rparen, q.line⟩]
  | .quoted content => [⟨.text (String.ofList content), q.line⟩]
  | .digits ds => if ds.length ≤ 4300 then [⟨.number (Nat.ofDigitChars 10 ds 0), q.line⟩] else []
  | .word cs => [⟨.name (String.ofList cs), q.line⟩]
  | .blank _ | .newline | .other _ | .unclosed _ => []

/-- What is reported about the piece: a longer run of digits, a character of no meaning, or a quote
without a partner. -/
def remarks (q : Placed) : List String :=
  match q.piece with
  | .digits ds =>
      if ds.length ≤ 4300 then [] else ["line " ++ Nat.repr q.line ++ ": " ++ "number too long"]
  | .other c =>
      ["line " ++ Nat.repr q.line ++ ": " ++ ("unknown character '" ++ String.singleton c ++ "'")]
  | .unclosed _ => ["line " ++ Nat.repr q.line ++ ": " ++ "unterminated string"]
  | .lparen | .rparen | .blank _ | .newline | .quoted _ | .word _ => []

/-- The scanner finds the token of a piece. -/
theorem tokens_eq (q : Placed) :
    q.tokens = (q.piece.lexeme?.map fun x => Token.mk x q.line).toList := by
  obtain ⟨before, p⟩ := q
  cases p with
  | digits ds =>
      rw [Piece.lexeme?_digits, Numeral.read?_eq_ofDigitChars]
      by_cases hlen : ds.length ≤ 4300
      · simp only [tokens, if_pos hlen]
        rfl
      · simp only [tokens, if_neg hlen]
        rfl
  | _ => rfl

/-- The scanner reports what there is to report about a piece. -/
theorem remarks_eq (q : Placed) :
    q.remarks = (q.piece.fault? q.line).toList.map Diagnostic.message := by
  obtain ⟨before, p⟩ := q
  cases p with
  | digits ds =>
      rw [Piece.fault?, Numeral.read?_eq_ofDigitChars]
      by_cases hlen : ds.length ≤ 4300
      · simp only [remarks, if_pos hlen]
        rfl
      · simp only [remarks, if_neg hlen]
        rfl
  | _ => rfl

end Placed

/-! ## A scan goes through the pieces in order -/

/-- A piece moves the line on by its newlines. -/
theorem line_after (before : List Char) (p : Piece) :
    1 + newlines before + p.lines = 1 + newlines (before ++ p.chars) := by
  rw [newlines_append, Nat.add_assoc]
  rfl

theorem tokensFrom_placed (before : List Char) (ps : List Piece) :
    tokensFrom (1 + newlines before) ps = (placed before ps).flatMap Placed.tokens
      ++ [⟨.eof, 1 + newlines (before ++ ps.flatMap Piece.chars)⟩] := by
  induction ps generalizing before with
  | nil => simp [tokensFrom, placed]
  | cons p ps ih =>
      have hrest := ih (before ++ p.chars)
      rw [← line_after, List.append_assoc, ← List.flatMap_cons] at hrest
      rw [placed, List.flatMap_cons, Placed.tokens_eq, List.append_assoc, ← hrest, tokensFrom]
      cases p.lexeme? <;> rfl

theorem faultsFrom_placed (before : List Char) (ps : List Piece) :
    (faultsFrom (1 + newlines before) ps).map Diagnostic.message
      = (placed before ps).flatMap Placed.remarks := by
  induction ps generalizing before with
  | nil => rfl
  | cons p ps ih =>
      have hrest := ih (before ++ p.chars)
      rw [← line_after] at hrest
      rw [placed, List.flatMap_cons, Placed.remarks_eq, ← hrest, faultsFrom, List.map_append]
      rfl

/-- **A scan accounts for every character once, and for its line.** Every text can be cut into maximal
pieces in exactly one way. Its tokens are those of the pieces, in order, and then the end of the program;
what is reported is what there is to report about the pieces, in order. Each token and each report is on
the line that the text before its piece has reached, and the end of the program on the last line. -/
theorem scan_accounts (src : String) :
    ∃ ps, (IsCuttingOf src.toList ps ∧ ∀ qs, IsCuttingOf src.toList qs → qs = ps) ∧
      (scan src).tokens
        = (placed [] ps).flatMap Placed.tokens ++ [⟨.eof, 1 + newlines src.toList⟩] ∧
      (scan src).diagnostics.map Diagnostic.message = (placed [] ps).flatMap Placed.remarks := by
  refine ⟨cut src.toList, ⟨isCuttingOf_iff.mpr rfl, fun qs hqs => isCuttingOf_iff.mp hqs⟩, ?_, ?_⟩
  · have htokens := tokensFrom_placed [] (cut src.toList)
    rw [List.nil_append, chars_cut] at htokens
    exact htokens
  · exact faultsFrom_placed [] (cut src.toList)

/-- A text over two lines, and a quote without a partner on the third, behind which a parenthesis is no
token. -/
example : (scan "a1 7\"x\ny\"\n$\"(").tokens
    = [⟨.name "a1", 1⟩, ⟨.number 7, 1⟩, ⟨.text "x\ny", 1⟩, ⟨.eof, 3⟩] := by decide +kernel

end FormLang
