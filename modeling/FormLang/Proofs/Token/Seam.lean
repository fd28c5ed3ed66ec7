import FormLang.Proofs.Token.Quotes

/-!
# `FormLang.Proofs.Token.Seam` — a text that is scanned in two parts

Where a text does not end inside quotes and a space comes next, the scanner begins anew behind the space:
no run, no number of too many digits and no text in quotes goes on across it. All that the scanner brings
along is the line. So the scan of two texts with a space between them is made of their scans, with the
second one moved down by the lines of the first and of the space.

## Contents
- `Token.lower`, `Diagnostic.lower`: the same some lines further down.
- `tokensFrom_lower`, `faultsFrom_lower`: pieces that begin further down.
- `tokensFrom_append`, `faultsFrom_append`: pieces in two parts.
- `exists_unterminated_iff`: a scan that reports a quote without a partner.
- `scan_append_space`: two texts with a space between them.
-/

namespace FormLang

open Text

/-! ## Further down -/

/-- The token on a line so many lines further down. -/
def Token.lower (k : Nat) (t : Token) : Token := { t with line := t.line + k }

/-- The diagnostic about a line so many lines further down. The others are about no line. -/
def Diagnostic.lower (k : Nat) : Diagnostic → Diagnostic
  | unknownCharacter line c => unknownCharacter (line + k) c
  | unterminatedText line => unterminatedText (line + k)
  | numberTooLong line => numberTooLong (line + k)
  | missingParen => missingParen
  | malformed message => malformed message
  | unknownCommand name => unknownCommand name
  | invalidOperand noun => invalidOperand noun
  | divisionByZero => divisionByZero
  | numericOverflow => numericOverflow
  | tooFewParameters => tooFewParameters
  | invalidName => invalidName

variable {ps : List Piece} {line : Nat}

theorem tokensFrom_lower (line k : Nat) (ps : List Piece) :
    tokensFrom (line + k) ps = (tokensFrom line ps).map (Token.lower k) := by
  induction ps generalizing line with
  | nil => rfl
  | cons p ps ih =>
      have hrest := ih (line + p.lines)
      rw [Nat.add_right_comm] at hrest
      rw [tokensFrom, tokensFrom, hrest]
      cases p.lexeme? <;> rfl

theorem Piece.fault?_lower (p : Piece) (line k : Nat) :
    p.fault? (line + k) = (p.fault? line).map (Diagnostic.lower k) := by
  cases p with
  | digits ds =>
      rw [fault?, fault?]
      cases Numeral.read? ds <;> rfl
  | _ => rfl

theorem faultsFrom_lower (line k : Nat) (ps : List Piece) :
    faultsFrom (line + k) ps = (faultsFrom line ps).map (Diagnostic.lower k) := by
  induction ps generalizing line with
  | nil => rfl
  | cons p ps ih =>
      have hrest := ih (line + p.lines)
      rw [Nat.add_right_comm] at hrest
      rw [faultsFrom, faultsFrom, hrest, p.fault?_lower, List.map_append]
      cases p.fault? line <;> rfl

/-! ## Pieces in two parts -/

/-- **Tokens of pieces in two parts.** The first part has the same tokens whatever follows it, and the
second begins on the line that the characters of the first have reached. -/
theorem tokensFrom_append (line : Nat) (ps qs : List Piece) :
    tokensFrom line (ps ++ qs) = untilEnd (tokensFrom line ps)
      ++ tokensFrom (line + newlines (ps.flatMap Piece.chars)) qs := by
  induction ps generalizing line with
  | nil => rfl
  | cons p ps ih =>
      rw [List.cons_append, tokensFrom, tokensFrom, ih, List.flatMap_cons, newlines_append, Piece.lines,
        Nat.add_assoc]
      cases hp : p.lexeme? with
      | none => rfl
      | some x =>
          have hx : (⟨x, line⟩ : Token).lexeme ≠ .eof := Piece.lexeme?_ne_eof hp
          dsimp only
          rw [untilEnd_cons hx, List.cons_append]

/-- **Reports about pieces in two parts.** -/
theorem faultsFrom_append (line : Nat) (ps qs : List Piece) :
    faultsFrom line (ps ++ qs)
      = faultsFrom line ps ++ faultsFrom (line + newlines (ps.flatMap Piece.chars)) qs := by
  induction ps generalizing line with
  | nil => rfl
  | cons p ps ih =>
      rw [List.cons_append, faultsFrom, faultsFrom, ih, List.flatMap_cons, newlines_append, Piece.lines,
        Nat.add_assoc, List.append_assoc]

/-- A quote without a partner is reported exactly if there is such a piece. -/
theorem exists_unterminated_iff :
    (∃ l, .unterminatedText l ∈ faultsFrom line ps) ↔ ∃ content, .unclosed content ∈ ps := by
  induction ps generalizing line with
  | nil => simp [faultsFrom]
  | cons p ps ih =>
      have hpiece : (∃ l, .unterminatedText l ∈ (p.fault? line).toList) ↔
          ∃ content, p = .unclosed content := by
        cases p with
        | digits ds =>
            rw [Piece.fault?]
            cases Numeral.read? ds <;> simp
        | _ => simp [Piece.fault?]
      simp only [faultsFrom, List.mem_append, List.mem_cons, exists_or, ih, hpiece]
      simp only [eq_comm]

/-! ## Texts with a space between them -/

/-- A scan finds a quote without a partner exactly if the number of quotes is odd. -/
theorem unterminated_scan_iff (src : String) :
    (∃ l, .unterminatedText l ∈ (scan src).diagnostics) ↔ src.toList.count '"' % 2 = 1 := by
  have hpieces : (∃ l, .unterminatedText l ∈ (scan src).diagnostics) ↔
      ∃ content, .unclosed content ∈ cut src.toList := exists_unterminated_iff
  have hquoted := exists_unclosed_iff .nothing src.toList
  rw [Growing.isQuoted_nothing, endsQuoted_eq_parity, decide_eq_true_iff] at hquoted
  exact hpieces.trans hquoted

/-- Behind a text that does not end inside quotes the pieces begin anew with a space. -/
theorem cut_append_space {a : List Char} (ha : endsQuoted false a = false) {s : Char} (hs : IsSpace s)
    (b : List Char) : cut (a ++ s :: b) = cut a ++ Piece.space s :: cut b := by
  rw [← cut_space hs]
  apply cut_append_of_unquoted ha
  intro q hq
  rw [cut_space hs] at hq
  obtain rfl := Option.some.inj hq
  unfold Piece.space
  split <;> exact id

/-- **A scan in two parts.** Of two texts with a space between them, let the first have an even number of
quotes, which is to say that its scan reports no quote without a partner. The tokens of the whole are
those of the first without the end of the program and then those of the second; and the same holds of
what is reported. Those of the second are as many lines further down as there are newlines in the first
text and the space. -/
theorem scan_append_space (a b : String) {s : Char} (hs : IsSpace s) :
    (a.toList.count '"' % 2 = 0 ↔ ∀ l, .unterminatedText l ∉ (scan a).diagnostics) ∧
    (a.toList.count '"' % 2 = 0 →
      scan (a ++ String.singleton s ++ b)
        = ⟨untilEnd (scan a).tokens
              ++ (scan b).tokens.map (Token.lower (newlines (a.toList ++ [s]))),
            (scan a).diagnostics
              ++ (scan b).diagnostics.map (Diagnostic.lower (newlines (a.toList ++ [s])))⟩) := by
  constructor
  · rw [← not_exists, unterminated_scan_iff]
    omega
  · intro heven
    have hunquoted : endsQuoted false a.toList = false := by
      rw [endsQuoted_eq_parity, decide_eq_false_iff_not]
      omega
    have hcut : cut (a ++ String.singleton s ++ b).toList
        = cut a.toList ++ Piece.space s :: cut b.toList := by
      rw [String.toList_append, String.toList_append, String.toList_singleton, List.append_assoc]
      exact cut_append_space hunquoted hs b.toList
    have hline : 1 + newlines a.toList + (Piece.space s).lines = 1 + newlines (a.toList ++ [s]) := by
      rw [newlines_append, Piece.lines, Piece.chars_space, Nat.add_assoc]
    -- the space itself has neither a token nor a report
    obtain ⟨hlexeme, hfault⟩ := Piece.space_silent s
    have htokens : tokensFrom 1 (cut (a ++ String.singleton s ++ b).toList)
        = untilEnd (scan a).tokens ++ tokensFrom (1 + newlines (a.toList ++ [s])) (cut b.toList) := by
      rw [hcut, tokensFrom_append, chars_cut, tokensFrom, hlexeme, hline]
      rfl
    have hfaults : faultsFrom 1 (cut (a ++ String.singleton s ++ b).toList)
        = (scan a).diagnostics ++ faultsFrom (1 + newlines (a.toList ++ [s])) (cut b.toList) := by
      rw [hcut, faultsFrom_append, chars_cut, faultsFrom, hfault, hline]
      rfl
    rw [scan, htokens, hfaults, tokensFrom_lower, faultsFrom_lower]
    rfl

/-- A character of no meaning and a text over two lines before the newline, and a quote without a partner
behind it, on the second line of its text. -/
theorem scan_append_space_newline :
    IsSpace '\n' ∧ "1 $\"a\nb\"".toList.count '"' % 2 = 0 ∧
    scan ("1 $\"a\nb\"" ++ String.singleton '\n' ++ "2\n\")")
      = ⟨untilEnd (scan "1 $\"a\nb\"").tokens ++ (scan "2\n\")").tokens.map (Token.lower 2),
          (scan "1 $\"a\nb\"").diagnostics
            ++ (scan "2\n\")").diagnostics.map (Diagnostic.lower 2)⟩ := by
  have hspace : IsSpace '\n' := by decide
  have heven : "1 $\"a\nb\"".toList.count '"' % 2 = 0 := by decide
  exact ⟨hspace, heven, (scan_append_space _ _ hspace).2 heven⟩

end FormLang
