import FormLang.Source.Piece
import Mathlib.Data.List.Chain

/-!
# `FormLang.Proofs.Source.Cutting` — there is one way to cut a text into pieces

A sequence of pieces is a cutting if each piece is of its kind and runs are as long as they can be, so
that no run is followed by a piece that would continue it. The scanner reads a text from left to right
and keeps the piece under way; it finds the cutting of the text, and there is no other.

## Contents
- `Piece.WellFormed`: what the characters of a piece must be.
- `Piece.StopsAt`: a text that does not continue the piece.
- `Piece.MayPrecede`, `IsCutting`: pieces that stay apart when they are written side by side.
- `cutFrom_chars`: the scanner finds a piece at its end.
- `cut_chars`: the scanner finds the pieces of a cutting.
- `wellFormed_cut`: all pieces that the scanner finds are of their kinds.
-/

namespace FormLang
namespace Piece

/-! ## Pieces of their kinds -/

/-- Whether the characters begin with a letter and are letters and digits throughout. -/
def IsWord : List Char → Prop
  | [] => False
  | c :: cs => c.isAlpha ∧ ∀ d ∈ cs, d.isAlphanum

/-- Whether a character begins no piece but itself. -/
def IsOther (c : Char) : Prop :=
  c ≠ '(' ∧ c ≠ ')' ∧ ¬isSeparator c ∧ c ≠ '\n' ∧ c ≠ '"' ∧ ¬c.isDigit ∧ ¬c.isAlpha

/-- The characters of the piece are such as its kind calls for. -/
def WellFormed : Piece → Prop
  | lparen | rparen | newline => True
  | blank c => isSeparator c
  | quoted content => '"' ∉ content
  | digits ds => ds ≠ [] ∧ ∀ d ∈ ds, d.isDigit
  | word cs => IsWord cs
  | other c => IsOther c
  | unclosed content => '"' ∉ content

/-- The text does not continue the piece. All text continues a quote without a partner. -/
def StopsAt : Piece → List Char → Prop
  | digits _, cs => ∀ c, cs.head? = some c → ¬c.isDigit
  | word _, cs => ∀ c, cs.head? = some c → ¬c.isAlphanum
  | unclosed _, cs => cs = []
  | lparen, _ | rparen, _ | newline, _ | blank _, _ | quoted _, _ | other _, _ => True

/-- The first piece does not continue into the second. -/
def MayPrecede : Piece → Piece → Prop
  | digits _, digits _ | word _, digits _ | word _, word _ | unclosed _, _ => False
  | _, _ => True

end Piece

/-- Pieces of their kinds that stay apart when they are written side by side. -/
structure IsCutting (ps : List Piece) : Prop where
  wellFormed : ∀ p ∈ ps, p.WellFormed
  apart : ps.IsChain Piece.MayPrecede

/-! ## What a character begins -/

namespace Growing

/-- A letter comes after all digits, so it is none of them. -/
theorem not_isDigit_of_isAlpha {c : Char} (h : c.isAlpha = true) : c.isDigit = false := by
  have hletter : 'A'.toNat ≤ c.toNat := by
    rcases Bool.or_eq_true_iff.mp h with hupper | hlower
    · exact (of_decide_eq_true hupper).1
    · have hle : 'a'.toNat ≤ c.toNat :=
        of_decide_eq_true (Bool.and_eq_true_iff.mp hlower).1
      exact Nat.le_trans (by decide) hle
  rw [Bool.eq_false_iff]
  intro hdigit
  have hle : c.toNat ≤ '9'.toNat := (Char.isDigit_iff_toNat.mp hdigit).2
  exact absurd (Nat.le_trans hletter hle) (by decide)

/-- The characters that are pieces by themselves, and the quote. -/
def delimiters : List Char := ['(', ')', ' ', '\r', '\t', '\n', '"']

/-- A character of a class without delimiters begins a number, a word, or nothing. -/
theorem start_of_class {class? : Char → Bool} {c : Char} (h : class? c = true)
    (hdelimiters : delimiters.all (fun d => !class? d) = true) :
    start c = if c.isDigit then ([], digits [c])
      else if c.isAlpha then ([], word [c]) else ([.other c], nothing) := by
  have hne : ∀ d ∈ delimiters, c ≠ d := by
    rintro d hd rfl
    have hclass := List.all_eq_true.mp hdelimiters c hd
    rw [h] at hclass
    cases hclass
  simp only [delimiters, List.forall_mem_cons] at hne
  obtain ⟨hlparen, hrparen, hspace, hreturn, htab, hnewline, hquote, -⟩ := hne
  simp [start, isSeparator, hlparen, hrparen, hspace, hreturn, htab, hnewline, hquote]

theorem start_digit {c : Char} (h : c.isDigit = true) : start c = ([], digits [c]) := by
  rw [start_of_class h rfl, if_pos h]

theorem start_letter {c : Char} (h : c.isAlpha = true) : start c = ([], word [c]) := by
  have hdigit : ¬c.isDigit := by simp [not_isDigit_of_isAlpha h]
  rw [start_of_class h rfl, if_neg hdigit, if_pos h]

theorem start_separator {c : Char} (h : isSeparator c = true) : start c = ([.blank c], nothing) := by
  have hlparen : c ≠ '(' := by rintro rfl; cases h
  have hrparen : c ≠ ')' := by rintro rfl; cases h
  rw [start, if_neg hlparen, if_neg hrparen, if_pos h]

theorem start_other {c : Char} (h : Piece.IsOther c) : start c = ([.other c], nothing) := by
  obtain ⟨hlparen, hrparen, hsep, hnewline, hquote, hdigit, halpha⟩ := h
  simp [start, hlparen, hrparen, hsep, hnewline, hquote, hdigit, halpha]

end Growing

/-! ## The scanner finds a piece at its end -/

variable {rev cs ds : List Char} {p q : Piece} {ps : List Piece}

/-- A piece under way that ends is followed by what the rest of the text begins. -/
theorem cutFrom_digits_end (h : (Piece.digits ds).StopsAt cs) :
    cutFrom (.digits rev) cs = .digits rev.reverse :: cutFrom .nothing cs := by
  cases cs with
  | nil => rfl
  | cons c cs => simp [cutFrom, Growing.push, h c rfl]

theorem cutFrom_word_end (h : (Piece.word ds).StopsAt cs) :
    cutFrom (.word rev) cs = .word rev.reverse :: cutFrom .nothing cs := by
  cases cs with
  | nil => rfl
  | cons c cs => simp [cutFrom, Growing.push, h c rfl]

theorem cutFrom_quoted_end :
    cutFrom (.quoted rev) ('"' :: cs) = .quoted rev.reverse :: cutFrom .nothing cs := by
  simp [cutFrom, Growing.push]

/-- Characters each of which only makes the piece under way grow join it one after the other. -/
theorem cutFrom_run {grow : List Char → Growing}
    (h : ∀ d ∈ ds, ∀ rev, (grow rev).push d = ([], grow (d :: rev))) :
    cutFrom (grow rev) (ds ++ cs) = cutFrom (grow (ds.reverse ++ rev)) cs := by
  induction ds generalizing rev with
  | nil => rfl
  | cons d ds ih =>
      rw [List.cons_append, cutFrom, h d List.mem_cons_self, List.nil_append,
        ih fun e he => h e (List.mem_cons_of_mem d he), List.reverse_cons, List.append_assoc]
      rfl

theorem push_digits {d : Char} (h : d.isDigit = true) (rev : List Char) :
    (Growing.digits rev).push d = ([], .digits (d :: rev)) := by
  simp [Growing.push, h]

theorem push_word {d : Char} (h : d.isAlphanum = true) (rev : List Char) :
    (Growing.word rev).push d = ([], .word (d :: rev)) := by
  simp [Growing.push, h]

theorem push_quoted {d : Char} (h : d ≠ '"') (rev : List Char) :
    (Growing.quoted rev).push d = ([], .quoted (d :: rev)) := by
  simp [Growing.push, h]

theorem ne_quote_of_not_mem (h : '"' ∉ ds) : ∀ d ∈ ds, d ≠ '"' :=
  fun _ hd heq => h (heq ▸ hd)

/-- **The scanner finds a piece at its end.** Between two pieces it meets the characters of a piece
and then a text that does not continue it; then it has found the piece. -/
theorem cutFrom_chars (hp : p.WellFormed) (hcs : p.StopsAt cs) :
    cutFrom .nothing (p.chars ++ cs) = p :: cutFrom .nothing cs := by
  cases p with
  | lparen => rfl
  | rparen => rfl
  | newline => rfl
  | blank c =>
      show (Growing.start c).1 ++ cutFrom (Growing.start c).2 cs = _
      rw [Growing.start_separator hp]
      rfl
  | other c =>
      show (Growing.start c).1 ++ cutFrom (Growing.start c).2 cs = _
      rw [Growing.start_other hp]
      rfl
  | digits ds =>
      obtain ⟨hne, hdigits⟩ := hp
      obtain ⟨d, ds, rfl⟩ := List.exists_cons_of_ne_nil hne
      show (Growing.start d).1 ++ cutFrom (Growing.start d).2 (ds ++ cs) = _
      rw [Growing.start_digit (hdigits d List.mem_cons_self), List.nil_append,
        cutFrom_run fun e he => push_digits (hdigits e (List.mem_cons_of_mem d he)),
        cutFrom_digits_end hcs, List.reverse_append, List.reverse_reverse]
      rfl
  | word ds =>
      cases ds with
      | nil => exact absurd hp id
      | cons d ds =>
          show (Growing.start d).1 ++ cutFrom (Growing.start d).2 (ds ++ cs) = _
          rw [Growing.start_letter hp.1, List.nil_append, cutFrom_run fun e he => push_word (hp.2 e he),
            cutFrom_word_end hcs, List.reverse_append, List.reverse_reverse]
          rfl
  | quoted content =>
      show cutFrom (.quoted []) (content ++ ['"'] ++ cs) = _
      rw [List.append_assoc, cutFrom_run fun e he => push_quoted (ne_quote_of_not_mem hp e he),
        List.append_nil, List.singleton_append, cutFrom_quoted_end, List.reverse_reverse]
  | unclosed content =>
      obtain rfl : cs = [] := hcs
      show cutFrom (.quoted []) (content ++ []) = _
      rw [cutFrom_run fun e he => push_quoted (ne_quote_of_not_mem hp e he), List.append_nil]
      show [Piece.unclosed content.reverse.reverse] = _
      rw [List.reverse_reverse]
      rfl

/-! ## The scanner finds the pieces of a cutting -/

theorem stopsAt_nil (p : Piece) : p.StopsAt [] := by
  cases p with
  | digits ds => exact fun c hc => absurd hc (by simp)
  | word ds => exact fun c hc => absurd hc (by simp)
  | unclosed content => rfl
  | _ => trivial

/-- What is neither a run of digits nor a word begins with neither a digit nor a letter. -/
theorem not_isAlphanum_of_head {c : Char} (hq : q.WellFormed) (hc : (q.chars ++ cs).head? = some c)
    (hdigits : ∀ ds, q ≠ .digits ds) (hword : ∀ ds, q ≠ .word ds) : c.isAlphanum = false := by
  cases q with
  | digits ds => exact absurd rfl (hdigits ds)
  | word ds => exact absurd rfl (hword ds)
  | blank d =>
      obtain rfl : d = c := Option.some.inj hc
      have hsep : isSeparator d = true := hq
      simp only [isSeparator, Bool.or_eq_true, beq_iff_eq] at hsep
      rcases hsep with (rfl | rfl) | rfl <;> rfl
  | other d =>
      obtain rfl : d = c := Option.some.inj hc
      obtain ⟨_, _, _, _, _, hdigit, halpha⟩ := hq
      simp [Char.isAlphanum, hdigit, halpha]
  | _ =>
      obtain rfl := Option.some.inj hc
      rfl

/-- Only a run of digits begins with a digit. -/
theorem eq_digits_of_head {c : Char} (hq : q.WellFormed) (hc : (q.chars ++ cs).head? = some c)
    (hdigit : c.isDigit = true) : ∃ ds, q = .digits ds := by
  by_contra hdigits
  rw [not_exists] at hdigits
  by_cases hword : ∃ ds, q = .word ds
  · obtain ⟨ds, rfl⟩ := hword
    cases ds with
    | nil => exact absurd hq id
    | cons d ds =>
        obtain rfl : d = c := Option.some.inj hc
        exact absurd hdigit (by simp [Growing.not_isDigit_of_isAlpha hq.1])
  · have h := not_isAlphanum_of_head hq hc hdigits (not_exists.mp hword)
    simp [Char.isAlphanum, hdigit] at h

/-- Only a word begins with a letter. -/
theorem eq_word_of_head {c : Char} (hq : q.WellFormed) (hc : (q.chars ++ cs).head? = some c)
    (halpha : c.isAlpha = true) : ∃ ds, q = .word ds := by
  by_contra hword
  rw [not_exists] at hword
  by_cases hdigits : ∃ ds, q = .digits ds
  · obtain ⟨ds, rfl⟩ := hdigits
    cases ds with
    | nil => exact absurd rfl hq.1
    | cons d ds =>
        obtain rfl : d = c := Option.some.inj hc
        have hdigit := Growing.not_isDigit_of_isAlpha halpha
        exact absurd (hq.2 d List.mem_cons_self) (by simp [hdigit])
  · have h := not_isAlphanum_of_head hq hc (not_exists.mp hdigits) hword
    simp [Char.isAlphanum, halpha] at h

theorem stopsAt_of_mayPrecede (hq : q.WellFormed) (h : p.MayPrecede q) :
    p.StopsAt (q.chars ++ cs) := by
  cases p with
  | digits ds =>
      intro c hc hdigit
      obtain ⟨ds', rfl⟩ := eq_digits_of_head hq hc hdigit
      exact h
  | word ds =>
      intro c hc halphanum
      rcases Bool.or_eq_true_iff.mp halphanum with halpha | hdigit
      · obtain ⟨ds', rfl⟩ := eq_word_of_head hq hc halpha
        exact h
      · obtain ⟨ds', rfl⟩ := eq_digits_of_head hq hc hdigit
        exact h
  | unclosed content => cases q <;> exact absurd h id
  | _ => trivial

/-- **Pieces that stay apart are found again.** -/
theorem cut_chars (h : IsCutting ps) : cut (ps.flatMap Piece.chars) = ps := by
  obtain ⟨hwell, hapart⟩ := h
  induction ps with
  | nil => rfl
  | cons p ps ih =>
      have hp : p.WellFormed := hwell p List.mem_cons_self
      have hps : ∀ q ∈ ps, q.WellFormed := fun q hq => hwell q (List.mem_cons_of_mem p hq)
      have hstops : p.StopsAt (ps.flatMap Piece.chars) := by
        cases ps with
        | nil => exact stopsAt_nil p
        | cons q ps =>
            exact stopsAt_of_mayPrecede (hps q List.mem_cons_self) (List.isChain_cons_cons.mp hapart).1
      rw [List.flatMap_cons, cut, cutFrom_chars hp hstops]
      exact congrArg (p :: ·) (ih hps hapart.tail)

/-! ## All pieces that the scanner finds are of their kinds -/

namespace Growing

/-- The characters of the piece under way are such as its kind calls for. -/
def WellFormed : Growing → Prop
  | nothing => True
  | digits rev => (Piece.digits rev.reverse).WellFormed
  | word rev => (Piece.word rev.reverse).WellFormed
  | quoted rev => '"' ∉ rev

theorem wellFormed_start (c : Char) :
    (∀ p ∈ (start c).1, p.WellFormed) ∧ (start c).2.WellFormed := by
  by_cases hsep : isSeparator c
  · rw [start_separator hsep]
    exact ⟨by simpa [Piece.WellFormed] using hsep, trivial⟩
  · by_cases hdigit : c.isDigit
    · rw [start_digit hdigit]
      exact ⟨by simp, by simpa [WellFormed, Piece.WellFormed] using hdigit⟩
    · by_cases halpha : c.isAlpha
      · rw [start_letter halpha]
        exact ⟨by simp, by simpa [WellFormed, Piece.WellFormed, Piece.IsWord] using halpha⟩
      · unfold start
        repeat' split
        all_goals simp_all [WellFormed, Piece.WellFormed, Piece.IsOther]

theorem isWord_concat {c : Char} (h : Piece.IsWord cs) (hc : c.isAlphanum = true) :
    Piece.IsWord (cs ++ [c]) := by
  cases cs with
  | nil => exact absurd h id
  | cons d cs =>
      refine ⟨h.1, fun e he => ?_⟩
      rcases List.mem_append.mp he with he | he
      · exact h.2 e he
      · rw [List.mem_singleton.mp he]
        exact hc

theorem wellFormed_push {g : Growing} (hg : g.WellFormed) (c : Char) :
    (∀ p ∈ (g.push c).1, p.WellFormed) ∧ (g.push c).2.WellFormed := by
  obtain ⟨hpieces, hnext⟩ := wellFormed_start c
  cases g with
  | nothing => exact ⟨hpieces, hnext⟩
  | digits rev =>
      by_cases h : c.isDigit
      · rw [push_digits h]
        refine ⟨by simp, by simp, fun d hd => ?_⟩
        rcases List.mem_cons.mp (List.mem_reverse.mp hd) with rfl | hd
        · exact h
        · exact hg.2 d (List.mem_reverse.mpr hd)
      · rw [push, if_neg h]
        exact ⟨List.forall_mem_cons.mpr ⟨hg, hpieces⟩, hnext⟩
  | word rev =>
      by_cases h : c.isAlphanum
      · rw [push_word h]
        refine ⟨by simp, ?_⟩
        show Piece.IsWord (c :: rev).reverse
        rw [List.reverse_cons]
        exact isWord_concat hg h
      · rw [push, if_neg h]
        exact ⟨List.forall_mem_cons.mpr ⟨hg, hpieces⟩, hnext⟩
  | quoted rev =>
      by_cases h : c = '"'
      · rw [push, if_pos h]
        exact ⟨by simpa [Piece.WellFormed, WellFormed] using hg, trivial⟩
      · rw [push_quoted h]
        refine ⟨by simp, fun hmem => ?_⟩
        rcases List.mem_cons.mp hmem with heq | hmem
        · exact h heq.symm
        · exact hg hmem

theorem wellFormed_close {g : Growing} (hg : g.WellFormed) : ∀ p ∈ g.close, p.WellFormed := by
  cases g with
  | nothing => simp [close]
  | digits rev => exact List.forall_mem_singleton.mpr hg
  | word rev => exact List.forall_mem_singleton.mpr hg
  | quoted rev => exact List.forall_mem_singleton.mpr fun h => hg (List.mem_reverse.mp h)

end Growing

theorem wellFormed_cutFrom {g : Growing} (hg : g.WellFormed) :
    ∀ p ∈ cutFrom g cs, p.WellFormed := by
  induction cs generalizing g with
  | nil => exact Growing.wellFormed_close hg
  | cons c cs ih =>
      obtain ⟨hpieces, hnext⟩ := Growing.wellFormed_push hg c
      exact List.forall_mem_append.mpr ⟨hpieces, ih hnext⟩

/-- **All pieces that the scanner finds are of their kinds.** -/
theorem wellFormed_cut (cs : List Char) : ∀ p ∈ cut cs, p.WellFormed :=
  wellFormed_cutFrom (g := .nothing) trivial

end FormLang
