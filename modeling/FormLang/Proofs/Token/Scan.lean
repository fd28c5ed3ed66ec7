import FormLang.Proofs.Numeral
import FormLang.Proofs.Source.Append
import FormLang.Proofs.Tree.Reader
import FormLang.Token.Scan

/-!
# `FormLang.Proofs.Token.Scan` — tokens and diagnostics, piece by piece

## Contents
- `lexemes_tokensFrom`: the lexemes of a scan are those of its pieces, and then the end.
- `faultsFrom_eq_nil`, `fault?_of_faultsFrom`: pieces without fault give no diagnostic, and only they.
- `Piece.space_silent`: spaces give neither.
- `Lexeme.IsWritten`, `isWritten_scan`: what a lexeme that was scanned can be.
-/

namespace FormLang

/-- A run of digits is a number if it can be read. -/
theorem Piece.lexeme?_digits (ds : List Char) :
    (Piece.digits ds).lexeme? = (Numeral.read? ds).map fun n => .number (n : Int) := by
  rw [lexeme?]
  cases Numeral.read? ds <;> rfl

/-- The lexemes of a scan are those of its pieces in order, with the end of the program after them. -/
theorem lexemes_tokensFrom (line : Nat) (ps : List Piece) :
    (tokensFrom line ps).map Token.lexeme = ps.filterMap Piece.lexeme? ++ [.eof] := by
  induction ps generalizing line with
  | nil => rfl
  | cons p ps ih =>
      rw [tokensFrom]
      cases hp : p.lexeme? with
      | none =>
          rw [List.filterMap_cons_none hp]
          exact ih (line + p.lines)
      | some x =>
          rw [List.filterMap_cons_some hp, List.cons_append, List.map_cons, ih]

/-- Pieces without fault give no diagnostic. -/
theorem faultsFrom_eq_nil {ps : List Piece} (h : ∀ p ∈ ps, ∀ line, p.fault? line = none)
    (line : Nat) : faultsFrom line ps = [] := by
  induction ps generalizing line with
  | nil => rfl
  | cons p ps ih =>
      rw [faultsFrom, h p List.mem_cons_self, ih fun q hq => h q (List.mem_cons_of_mem p hq)]
      rfl

/-- Whether there is something to report about a piece does not depend on its line. -/
theorem Piece.fault?_eq_none_iff (p : Piece) (line line' : Nat) :
    p.fault? line = none ↔ p.fault? line' = none := by
  cases p with
  | digits ds =>
      rw [fault?, fault?]
      cases Numeral.read? ds with
      | some n => exact Iff.rfl
      | none => exact iff_of_false (Option.some_ne_none _) (Option.some_ne_none _)
  | other c => exact iff_of_false (Option.some_ne_none _) (Option.some_ne_none _)
  | unclosed content => exact iff_of_false (Option.some_ne_none _) (Option.some_ne_none _)
  | _ => exact Iff.rfl

/-- If there is nothing to report about a text there is nothing to report about any of its pieces. -/
theorem fault?_of_faultsFrom {ps : List Piece} {line : Nat} (h : faultsFrom line ps = []) :
    ∀ p ∈ ps, ∀ line', p.fault? line' = none := by
  induction ps generalizing line with
  | nil => exact fun _ hp => absurd hp List.not_mem_nil
  | cons p ps ih =>
      rw [faultsFrom, List.append_eq_nil_iff, Option.toList_eq_nil_iff] at h
      intro q hq line'
      rcases List.mem_cons.mp hq with rfl | hq
      · exact (Piece.fault?_eq_none_iff q line line').mp h.1
      · exact ih h.2 q hq line'

/-- A space gives neither a token nor a report. -/
theorem Piece.space_silent (c : Char) :
    (Piece.space c).lexeme? = none ∧ ∀ line, (Piece.space c).fault? line = none := by
  unfold Piece.space
  by_cases h : c = '\n'
  · rw [if_pos h]
    exact ⟨rfl, fun _ => rfl⟩
  · rw [if_neg h]
    exact ⟨rfl, fun _ => rfl⟩

/-! ## Lexemes that come from a text -/

/-- A lexeme that some text is scanned to: its number is not negative and has not too many digits, its
text holds no quote, and its name is a word. -/
def Lexeme.IsWritten : Lexeme → Prop
  | .number n => 0 ≤ n ∧ n.natAbs < Numeral.limit
  | .text s => '"' ∉ s.toList
  | .name s => Piece.IsWord s.toList
  | .lparen | .rparen | .eof => True

theorem Piece.isWritten_lexeme? {p : Piece} (hp : p.WellFormed) {x : Lexeme}
    (hx : p.lexeme? = some x) : x.IsWritten := by
  cases p with
  | digits ds =>
      rw [lexeme?_digits] at hx
      obtain ⟨n, hn, rfl⟩ := Option.map_eq_some_iff.mp hx
      refine ⟨Int.natCast_nonneg n, ?_⟩
      rw [Int.natAbs_natCast]
      exact Numeral.lt_limit_of_read? hp.2 hn
  | quoted content =>
      obtain rfl := Option.some.inj hx
      rw [Lexeme.IsWritten, String.toList_ofList]
      exact hp
  | word cs =>
      obtain rfl := Option.some.inj hx
      rw [Lexeme.IsWritten, String.toList_ofList]
      exact hp
  | lparen => rw [← Option.some.inj hx]; trivial
  | rparen => rw [← Option.some.inj hx]; trivial
  | _ => cases hx

/-- **All lexemes of a scan are of the written kinds.** -/
theorem isWritten_scan (src : String) : ∀ t ∈ (scan src).tokens, t.lexeme.IsWritten := by
  intro t ht
  have hmem : t.lexeme ∈ (cut src.toList).filterMap Piece.lexeme? ++ [Lexeme.eof] := by
    rw [← lexemes_tokensFrom 1]
    exact List.mem_map_of_mem ht
  rcases List.mem_append.mp hmem with hpiece | heof
  · obtain ⟨p, hp, hx⟩ := List.mem_filterMap.mp hpiece
    exact Piece.isWritten_lexeme? (wellFormed_cut src.toList p hp) hx
  · rw [List.mem_singleton.mp heof]
    trivial

end FormLang
