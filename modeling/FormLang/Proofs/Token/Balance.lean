import FormLang.Proofs.Token.Scan
import FormLang.Proofs.Tree.Closing
import FormLang.Source.Balance

/-!
# `FormLang.Proofs.Token.Balance` — the balance of a text is that of its tokens

Parentheses are read in two ways. `balance` goes over the characters and knows only whether it is inside
quotes; the scanner cuts the text into pieces first. They agree because the one thing that hides a
parenthesis from the scanner is a piece in quotes: `balanceFrom` is inside quotes exactly if the piece
under way is one (`Growing.isQuoted`), and a run that is under way holds no parenthesis.

## Contents
- `weigh`: the balance of pieces.
- `weigh_push`, `weigh_cutFrom`: one character, and a whole text, in terms of the two readers.
- `opens_sub_closes_tokensFrom`: the tokens of pieces have their balance.
- `balance_eq_weigh`, `opens_sub_closes_scan`, `balance_scan`: texts.
- `exists_end_scan`, `lexemes_untilEnd_scan`: a scan ends with the end of the program and has no other.
-/

namespace FormLang

/-! ## The balance of pieces -/

/-- What a piece adds to the balance. -/
def Piece.weight : Piece → Int
  | lparen => 1
  | rparen => -1
  | blank _ | newline | quoted _ | digits _ | word _ | other _ | unclosed _ => 0

/-- The balance of pieces. -/
def weigh : List Piece → Int
  | [] => 0
  | p :: ps => p.weight + weigh ps

@[simp] theorem weigh_nil : weigh [] = 0 := rfl

@[simp] theorem weigh_cons (p : Piece) (ps : List Piece) : weigh (p :: ps) = p.weight + weigh ps := rfl

theorem weigh_append (ps qs : List Piece) : weigh (ps ++ qs) = weigh ps + weigh qs := by
  induction ps with
  | nil => exact (Int.zero_add _).symm
  | cons p ps ih => rw [List.cons_append, weigh_cons, ih, weigh_cons, Int.add_assoc]

/-! ## Character by character -/

/-- Whether the piece under way is a text in quotes. -/
def Growing.isQuoted : Growing → Bool
  | quoted _ => true
  | nothing | digits _ | word _ => false

@[simp] theorem Growing.isQuoted_nothing : nothing.isQuoted = false := rfl

@[simp] theorem Growing.isQuoted_digits (rev : List Char) : (digits rev).isQuoted = false := rfl

@[simp] theorem Growing.isQuoted_word (rev : List Char) : (word rev).isQuoted = false := rfl

@[simp] theorem Growing.isQuoted_quoted (rev : List Char) : (quoted rev).isQuoted = true := rfl

/-- Letters and digits do not change the balance. -/
theorem balanceFrom_of_isAlphanum {c : Char} (h : c.isAlphanum = true) (cs : List Char) :
    balanceFrom false (c :: cs) = balanceFrom false cs := by
  have hquote : c ≠ '"' := by
    rintro rfl
    cases h
  have hlparen : c ≠ '(' := by
    rintro rfl
    cases h
  have hrparen : c ≠ ')' := by
    rintro rfl
    cases h
  simp [balanceFrom, hquote, hlparen, hrparen]

namespace Growing

/-- What a character begins has the balance that the character had. -/
theorem weigh_start (c : Char) (cs : List Char) :
    weigh (start c).1 + balanceFrom (start c).2.isQuoted cs = balanceFrom false (c :: cs) := by
  by_cases hquote : c = '"'
  · simp [hquote, start, isSeparator, balanceFrom]
  · unfold start
    repeat' split
    all_goals simp_all [balanceFrom, Piece.weight]

/-- **One character.** The pieces that it completes and the rest of the text have the balance of the
character and the rest. -/
theorem weigh_push (g : Growing) (c : Char) (cs : List Char) :
    weigh (g.push c).1 + balanceFrom (g.push c).2.isQuoted cs = balanceFrom g.isQuoted (c :: cs) := by
  cases g with
  | nothing => exact weigh_start c cs
  | digits rev =>
      by_cases h : c.isDigit
      · have halphanum : c.isAlphanum = true := by simp [Char.isAlphanum, h]
        simp [push, h, balanceFrom_of_isAlphanum halphanum]
      · simp [push, h, Piece.weight, weigh_start c cs]
  | word rev =>
      by_cases h : c.isAlphanum
      · simp [push, h, balanceFrom_of_isAlphanum h]
      · simp [push, h, Piece.weight, weigh_start c cs]
  | quoted rev =>
      by_cases h : c = '"'
      · simp [push, h, Piece.weight, balanceFrom]
      · simp [push, h, balanceFrom]

theorem weigh_close (g : Growing) : weigh g.close = 0 := by
  cases g <;> rfl

end Growing

/-- **The pieces of a text have the balance of the text.** -/
theorem weigh_cutFrom (g : Growing) (cs : List Char) :
    weigh (cutFrom g cs) = balanceFrom g.isQuoted cs := by
  induction cs generalizing g with
  | nil => exact g.weigh_close
  | cons c cs ih => rw [cutFrom, weigh_append, ih, g.weigh_push]

theorem balance_eq_weigh (src : String) : balance src = weigh (cut src.toList) :=
  (weigh_cutFrom .nothing src.toList).symm

/-! ## Token by token -/

/-- A lexeme adds to the balance what its piece does. -/
theorem weight_of_lexeme? {p : Piece} {x : Lexeme} (h : p.lexeme? = some x) (line : Nat) :
    (opens [⟨x, line⟩] : Int) - closes [⟨x, line⟩] = p.weight := by
  cases p with
  | digits ds =>
      obtain ⟨n, -, rfl⟩ := Option.map_eq_some_iff.mp h
      rfl
  | blank c => cases h
  | newline => cases h
  | other c => cases h
  | unclosed content => cases h
  | _ =>
      rw [← Option.some.inj h]
      rfl

/-- A piece without a lexeme is no parenthesis. -/
theorem weight_of_lexeme?_eq_none {p : Piece} (h : p.lexeme? = none) : p.weight = 0 := by
  cases p with
  | lparen => cases h
  | rparen => cases h
  | _ => rfl

/-- **The tokens of pieces have the balance of the pieces.** -/
theorem opens_sub_closes_tokensFrom (line : Nat) (ps : List Piece) :
    (opens (tokensFrom line ps) : Int) - closes (tokensFrom line ps) = weigh ps := by
  induction ps generalizing line with
  | nil => rfl
  | cons p ps ih =>
      have hrest := ih (line + p.lines)
      rw [tokensFrom, weigh_cons]
      cases hp : p.lexeme? with
      | none => rw [weight_of_lexeme?_eq_none hp, Int.zero_add, hrest]
      | some x =>
          rw [← weight_of_lexeme? hp line, ← hrest, opens_cons, closes_cons, Int.natCast_add,
            Int.natCast_add]
          omega

theorem opens_sub_closes_scan (src : String) :
    (opens (scan src).tokens : Int) - closes (scan src).tokens = weigh (cut src.toList) :=
  opens_sub_closes_tokensFrom 1 (cut src.toList)

/-- **The two readers of parentheses agree.** For every text the balance is the number of opening
parentheses among its tokens less the number of closing ones. -/
theorem balance_scan (src : String) :
    balance src = (opens (scan src).tokens : Int) - closes (scan src).tokens := by
  rw [balance_eq_weigh, opens_sub_closes_scan]

/-! ## The end of a scan -/

theorem Piece.lexeme?_ne_eof {p : Piece} {x : Lexeme} (h : p.lexeme? = some x) : x ≠ .eof := by
  rintro rfl
  cases p with
  | digits ds =>
      obtain ⟨n, -, hn⟩ := Option.map_eq_some_iff.mp h
      cases hn
  | _ => cases h

/-- A scan ends with the end of the program, and has no other. -/
theorem tokensFrom_eq_untilEnd (line : Nat) (ps : List Piece) :
    ∃ last, tokensFrom line ps = untilEnd (tokensFrom line ps) ++ [⟨.eof, last⟩] := by
  induction ps generalizing line with
  | nil => exact ⟨line, rfl⟩
  | cons p ps ih =>
      obtain ⟨last, hlast⟩ := ih (line + p.lines)
      refine ⟨last, ?_⟩
      rw [tokensFrom]
      cases hp : p.lexeme? with
      | none => exact hlast
      | some x =>
          have hx : (⟨x, line⟩ : Token).lexeme ≠ .eof := Piece.lexeme?_ne_eof hp
          rw [untilEnd_cons hx, List.cons_append, ← hlast]

theorem exists_end_scan (src : String) :
    ∃ last, (scan src).tokens = untilEnd (scan src).tokens ++ [⟨.eof, last⟩] :=
  tokensFrom_eq_untilEnd 1 (cut src.toList)

/-- The end of the program is no parenthesis. -/
theorem count_untilEnd_scan (src : String) :
    opens (untilEnd (scan src).tokens) = opens (scan src).tokens ∧
      closes (untilEnd (scan src).tokens) = closes (scan src).tokens := by
  obtain ⟨last, hlast⟩ := exists_end_scan src
  constructor
  · conv_rhs => rw [hlast, opens_append]
    rfl
  · conv_rhs => rw [hlast, closes_append]
    rfl

/-- The lexemes before the end of a scan are those of the pieces. -/
theorem lexemes_untilEnd_scan (src : String) :
    (untilEnd (scan src).tokens).map Token.lexeme = (cut src.toList).filterMap Piece.lexeme? := by
  obtain ⟨last, hlast⟩ := exists_end_scan src
  have hscan := lexemes_tokensFrom 1 (cut src.toList)
  rw [show tokensFrom 1 (cut src.toList) = (scan src).tokens from rfl, hlast, List.map_append] at hscan
  exact List.append_cancel_right hscan

end FormLang
