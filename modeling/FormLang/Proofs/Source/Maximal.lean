import FormLang.Proofs.Source.Cutting
import Mathlib.Data.List.TakeWhile

/-!
# `FormLang.Proofs.Source.Maximal` — the cutting of a text into maximal pieces

That a run is as long as it can be is first of all a statement about the text around it: no longer
stretch of the text that contains the run is a run of the same kind. `IsCutting` says it of neighbouring
pieces only. The two descriptions agree, so that a text has exactly one cutting into maximal pieces, and
`cut` finds it.

The existence half needs a look to both sides. What follows a run is settled when the scanner ends it
(`exists_first`). What stands before a run is settled by the piece before: a letter or digit there would
belong to a run, which would have gone on.

## Contents
- `Piece.IsMaximal`, `IsCuttingOf`: a piece that cannot be extended, and a cutting of a text.
- `exists_first`, `isCutting_cut`: a text begins with a piece, and `cut` gives a cutting.
- `not_isAlphanum_before_digits`: digits that are a piece follow neither a letter nor a digit.
- `isCuttingOf_iff`: the two descriptions agree; only `cut` satisfies them.
-/

namespace FormLang
namespace Piece

/-- The piece is as long as it can be between the text before it and the text after it: no longer
stretch of the whole that contains a run is a run of the same kind, and a quote without a partner goes
on to the end. -/
def IsMaximal (before : List Char) (p : Piece) (after : List Char) : Prop :=
  match p with
  | digits ds => ∀ l r, l <:+ before → r <+: after →
      (∀ d ∈ l ++ ds ++ r, d.isDigit) → l = [] ∧ r = []
  | word cs => ∀ l r, l <:+ before → r <+: after → IsWord (l ++ cs ++ r) → l = [] ∧ r = []
  | unclosed _ => after = []
  | lparen | rparen | newline | blank _ | quoted _ | other _ => True

end Piece

/-- The pieces are the text, each is of its kind, and each is as long as it can be. -/
structure IsCuttingOf (src : List Char) (ps : List Piece) : Prop where
  chars : ps.flatMap Piece.chars = src
  wellFormed : ∀ p ∈ ps, p.WellFormed
  maximal : ∀ l p r, ps = l ++ p :: r →
    p.IsMaximal (l.flatMap Piece.chars) (r.flatMap Piece.chars)

variable {src cs ds : List Char} {p q : Piece} {ps l r : List Piece}

/-! ## What follows a piece -/

theorem Piece.chars_ne_nil (hp : p.WellFormed) : p.chars ≠ [] := by
  cases p with
  | digits ds => exact hp.1
  | word cs =>
      intro hnil
      rw [show cs = [] from hnil] at hp
      exact hp
  | _ => exact List.cons_ne_nil _ _

/-- A piece that the next one does not continue may stand before it. -/
theorem mayPrecede_of_stopsAt (hq : q.WellFormed) (h : p.StopsAt (q.chars ++ cs)) :
    p.MayPrecede q := by
  have hhead : ∀ {c ds}, q.chars = c :: ds → (q.chars ++ cs).head? = some c := by
    intro c ds hchars
    rw [hchars]
    rfl
  cases p with
  | digits ds =>
      cases q with
      | digits es =>
          obtain ⟨d, es, rfl⟩ := List.exists_cons_of_ne_nil hq.1
          exact h d (hhead rfl) (hq.2 d List.mem_cons_self)
      | _ => trivial
  | word ds =>
      cases q with
      | digits es =>
          obtain ⟨d, es, rfl⟩ := List.exists_cons_of_ne_nil hq.1
          apply h d (hhead rfl)
          simp [Char.isAlphanum, hq.2 d List.mem_cons_self]
      | word es =>
          obtain ⟨d, es, rfl⟩ := List.exists_cons_of_ne_nil (Piece.chars_ne_nil hq)
          apply h d (hhead rfl)
          simp [Char.isAlphanum, hq.1]
      | _ => trivial
  | unclosed content =>
      have hnil : q.chars = [] := (List.append_eq_nil_iff.mp h).1
      exact absurd hnil (Piece.chars_ne_nil hq)
  | _ => cases q <;> trivial

/-- What follows a run that is as long as it can be does not continue it. -/
theorem Piece.IsMaximal.stopsAt {before after : List Char} (hp : p.WellFormed)
    (h : p.IsMaximal before after) : p.StopsAt after := by
  have hone : ∀ {c}, after.head? = some c → [c] <+: after := by
    intro c hc
    obtain ⟨after', rfl⟩ := List.head?_eq_some_iff.mp hc
    exact ⟨after', rfl⟩
  cases p with
  | digits ds =>
      intro c hc hdigit
      have hrun : ∀ d ∈ [] ++ ds ++ [c], d.isDigit := by
        intro d hd
        rcases List.mem_append.mp hd with hd | hd
        · exact hp.2 d hd
        · rw [List.mem_singleton.mp hd]
          exact hdigit
      exact absurd (h [] [c] List.nil_suffix (hone hc) hrun).2 (List.cons_ne_nil c [])
  | word cs =>
      intro c hc halphanum
      have hrun : IsWord ([] ++ cs ++ [c]) := Growing.isWord_concat hp halphanum
      exact absurd (h [] [c] List.nil_suffix (hone hc) hrun).2 (List.cons_ne_nil c [])
  | unclosed content => exact h
  | _ => trivial

/-- **A text begins with a piece** that goes on for as long as it can. -/
theorem exists_first (c : Char) (cs : List Char) :
    ∃ p : Piece, ∃ rest, c :: cs = p.chars ++ rest ∧ p.WellFormed ∧ p.StopsAt rest := by
  have hrest : ∀ (p : Char → Bool) d, (cs.dropWhile p).head? = some d → ¬p d := by
    intro p d hd
    simpa [hd] using List.head?_dropWhile_not p cs
  by_cases hlparen : c = '('
  · exact ⟨.lparen, cs, by rw [hlparen]; rfl, trivial, trivial⟩
  by_cases hrparen : c = ')'
  · exact ⟨.rparen, cs, by rw [hrparen]; rfl, trivial, trivial⟩
  by_cases hsep : isSeparator c
  · exact ⟨.blank c, cs, rfl, hsep, trivial⟩
  by_cases hnewline : c = '\n'
  · exact ⟨.newline, cs, by rw [hnewline]; rfl, trivial, trivial⟩
  by_cases hquote : c = '"'
  · by_cases hclosed : '"' ∈ cs
    · obtain ⟨content, rest, rfl, hcontent⟩ := List.eq_append_cons_of_mem hclosed
      exact ⟨.quoted content, rest, by rw [hquote]; simp [Piece.chars], hcontent, trivial⟩
    · exact ⟨.unclosed cs, [], by rw [hquote]; simp [Piece.chars], hclosed, rfl⟩
  by_cases hdigit : c.isDigit
  · refine ⟨.digits (c :: cs.takeWhile Char.isDigit), cs.dropWhile Char.isDigit, ?_, ?_, hrest _⟩
    · simp [Piece.chars]
    · refine ⟨List.cons_ne_nil _ _, List.forall_mem_cons.mpr ⟨hdigit, ?_⟩⟩
      intro d hd
      exact List.mem_takeWhile_imp hd
  by_cases halpha : c.isAlpha
  · refine ⟨.word (c :: cs.takeWhile Char.isAlphanum), cs.dropWhile Char.isAlphanum, ?_, ?_, hrest _⟩
    · simp [Piece.chars]
    · refine ⟨halpha, ?_⟩
      intro d hd
      exact List.mem_takeWhile_imp hd
  · exact ⟨.other c, cs, rfl, ⟨hlparen, hrparen, hsep, hnewline, hquote, hdigit, halpha⟩, trivial⟩

/-- **The scanner finds a cutting.** It takes the first piece of the text and goes on with the rest. -/
theorem isCutting_cut (cs : List Char) : IsCutting (cut cs) := by
  refine ⟨wellFormed_cut cs, ?_⟩
  induction hlen : cs.length using Nat.strongRecOn generalizing cs with
  | ind n ih =>
      cases cs with
      | nil => exact List.isChain_nil
      | cons c cs =>
          obtain ⟨p, rest, hchars, hp, hstops⟩ := exists_first c cs
          have hshorter : rest.length < n := by
            have hpos := List.length_pos_of_ne_nil (Piece.chars_ne_nil hp)
            rw [← hlen, hchars, List.length_append]
            omega
          have hcut : cut (c :: cs) = p :: cut rest := by
            rw [hchars]
            exact cutFrom_chars hp hstops
          rw [hcut]
          apply List.isChain_cons.mpr
          refine ⟨?_, ih rest.length hshorter rest rfl⟩
          intro q hq
          obtain ⟨ps, hps⟩ := List.head?_eq_some_iff.mp hq
          have hqs : q.WellFormed := wellFormed_cut rest q (hps ▸ List.mem_cons_self)
          have hrest : q.chars ++ ps.flatMap Piece.chars = rest := by
            rw [← List.flatMap_cons, ← hps, chars_cut]
          rw [← hrest] at hstops
          exact mayPrecede_of_stopsAt hqs hstops

/-! ## What stands before a piece -/

/-- The last character of a text that ends in a letter or digit belongs to a run, or to a text without
closing quote. -/
theorem run_of_getLast? {c : Char} (hp : p.WellFormed) (hc : p.chars.getLast? = some c)
    (halphanum : c.isAlphanum = true) :
    (∃ ds, p = .digits ds) ∨ (∃ cs, p = .word cs) ∨ ∃ content, p = .unclosed content := by
  cases p with
  | digits ds => exact .inl ⟨ds, rfl⟩
  | word cs => exact .inr (.inl ⟨cs, rfl⟩)
  | unclosed content => exact .inr (.inr ⟨content, rfl⟩)
  | quoted content =>
      have hlast : (Piece.quoted content).chars.getLast? = some '"' :=
        List.getLast?_concat (l := '"' :: content)
      rw [hlast] at hc
      rw [← Option.some.inj hc] at halphanum
      cases halphanum
  | blank d =>
      obtain rfl : d = c := Option.some.inj hc
      have hsep : isSeparator d = true := hp
      simp only [isSeparator, Bool.or_eq_true, beq_iff_eq] at hsep
      rcases hsep with (rfl | rfl) | rfl <;> cases halphanum
  | other d =>
      obtain rfl : d = c := Option.some.inj hc
      obtain ⟨_, _, _, _, _, hdigit, halpha⟩ := hp
      simp [Char.isAlphanum, hdigit, halpha] at halphanum
  | _ =>
      rw [← Option.some.inj hc] at halphanum
      cases halphanum

/-- The last character of pieces is the last of the last piece. -/
theorem exists_last_piece {c : Char} (hl : ∀ p ∈ l, p.WellFormed)
    (hc : (l.flatMap Piece.chars).getLast? = some c) :
    ∃ l' p, l = l' ++ [p] ∧ p.WellFormed ∧ p.chars.getLast? = some c := by
  rcases List.eq_nil_or_concat l with rfl | ⟨l', p, rfl⟩
  · cases hc
  · rw [List.concat_eq_append] at hl hc ⊢
    have hp : p.WellFormed := hl p (by simp)
    refine ⟨l', p, rfl, hp, ?_⟩
    rw [List.flatMap_append, List.flatMap_singleton,
      List.getLast?_append_of_ne_nil _ (Piece.chars_ne_nil hp)] at hc
    exact hc

/-- In a cutting two neighbours may stand next to each other. -/
theorem IsCutting.mayPrecede (h : IsCutting (l ++ p :: q :: r)) : p.MayPrecede q :=
  (List.isChain_cons_cons.mp (List.isChain_append.mp h.apart).2.1).1

/-- **No run of digits stands right after a letter or digit.** The run that the letter or digit belongs
to would have gone on. -/
theorem not_isAlphanum_before_digits {c : Char} (h : IsCutting (l ++ .digits ds :: r))
    (hc : (l.flatMap Piece.chars).getLast? = some c) : c.isAlphanum = false := by
  have hl : ∀ p ∈ l, p.WellFormed := fun p hp => h.wellFormed p (List.mem_append_left _ hp)
  obtain ⟨l', p, rfl, hp, hlast⟩ := exists_last_piece hl hc
  rw [List.append_assoc, List.singleton_append] at h
  have hnext := h.mayPrecede
  rw [Bool.eq_false_iff]
  intro halphanum
  rcases run_of_getLast? hp hlast halphanum with ⟨es, rfl⟩ | ⟨es, rfl⟩ | ⟨content, rfl⟩
  · exact hnext
  · exact hnext
  · exact hnext

theorem Piece.IsWord.isAlphanum (h : IsWord cs) : ∀ d ∈ cs, d.isAlphanum := by
  cases cs with
  | nil => exact absurd h id
  | cons c cs =>
      refine List.forall_mem_cons.mpr ⟨?_, h.2⟩
      simp [Char.isAlphanum, h.1]

/-- Digits do not end in a word. -/
theorem not_isWord_of_suffix_digits {s : List Char} (hds : ∀ d ∈ ds, d.isDigit) (hs : s <:+ ds) :
    ¬Piece.IsWord s := by
  intro hword
  cases s with
  | nil => exact hword
  | cons c s =>
      have hdigit := hds c (hs.subset List.mem_cons_self)
      rw [Growing.not_isDigit_of_isAlpha hword.1] at hdigit
      cases hdigit

theorem getLast?_of_suffix {s : List Char} (hs : s <:+ cs) (hne : s ≠ []) :
    cs.getLast? = some (s.getLast hne) := by
  obtain ⟨u, rfl⟩ := hs
  rw [List.getLast?_append_of_ne_nil u hne, List.getLast?_eq_some_getLast hne]

/-- **No word ends right before a word.** What stands there may be a run of digits, but then neither a
letter nor a digit stands before that. -/
theorem not_isWord_before_word {s : List Char} (h : IsCutting (l ++ .word ds :: r))
    (hs : s <:+ l.flatMap Piece.chars) : ¬Piece.IsWord s := by
  intro hword
  have hne : s ≠ [] := by
    rintro rfl
    exact hword
  have hl : ∀ p ∈ l, p.WellFormed := fun p hp => h.wellFormed p (List.mem_append_left _ hp)
  obtain ⟨l', p, rfl, hp, hlast⟩ := exists_last_piece hl (getLast?_of_suffix hs hne)
  rw [List.append_assoc, List.singleton_append] at h
  have hnext := h.mayPrecede
  have halphanum := hword.isAlphanum _ (List.getLast_mem hne)
  rcases run_of_getLast? hp hlast halphanum with ⟨es, rfl⟩ | ⟨es, rfl⟩ | ⟨content, rfl⟩
  · -- either the word lies within these digits, or it reaches beyond them
    rw [List.flatMap_append, List.flatMap_singleton, Piece.chars] at hs
    rcases List.suffix_or_suffix_of_suffix hs (List.suffix_append _ es) with hwithin | ⟨t, rfl⟩
    · exact not_isWord_of_suffix_digits hp.2 hwithin hword
    · by_cases ht : t = []
      · rw [ht] at hword
        exact not_isWord_of_suffix_digits hp.2 List.suffix_rfl hword
      · obtain ⟨u, hu⟩ := hs
        rw [← List.append_assoc] at hu
        have hbefore : t <:+ l'.flatMap Piece.chars := ⟨u, List.append_cancel_right hu⟩
        have hdigit := not_isAlphanum_before_digits h (getLast?_of_suffix hbefore ht)
        rw [hword.isAlphanum _ (List.mem_append_left es (List.getLast_mem ht))] at hdigit
        cases hdigit
  · exact hnext
  · exact hnext

/-! ## The two descriptions agree -/

/-- Neighbours that may stand next to each other are as long as they can be. -/
theorem IsCutting.isMaximal (h : IsCutting (l ++ p :: r)) :
    p.IsMaximal (l.flatMap Piece.chars) (r.flatMap Piece.chars) := by
  have hstops : p.StopsAt (r.flatMap Piece.chars) := by
    cases r with
    | nil => exact stopsAt_nil p
    | cons q r =>
        have hq : q.WellFormed := h.wellFormed q (by simp)
        exact stopsAt_of_mayPrecede hq h.mayPrecede
  -- a stretch that begins further left than the piece, or ends further right
  have hright : ∀ {c s}, s <+: r.flatMap Piece.chars → s.head? = some c →
      (r.flatMap Piece.chars).head? = some c := by
    rintro c s ⟨u, hu⟩ hc
    rw [← hu, List.head?_append, hc]
    rfl
  cases p with
  | digits ds =>
      intro a b ha hb hrun
      constructor
      · by_contra hne
        have hbefore := not_isAlphanum_before_digits h (getLast?_of_suffix ha hne)
        have hdigit := hrun (a.getLast hne) (by simp)
        simp [Char.isAlphanum, hdigit] at hbefore
      · cases b with
        | nil => rfl
        | cons c b => exact absurd (hrun c (by simp)) (hstops c (hright hb rfl))
  | word cs =>
      intro a b ha hb hrun
      constructor
      · cases a with
        | nil => rfl
        | cons c a =>
            have hword : Piece.IsWord (c :: a) := by
              refine ⟨hrun.1, ?_⟩
              intro d hd
              exact hrun.2 d (by simp [hd])
            exact absurd hword (not_isWord_before_word h ha)
      · cases b with
        | nil => rfl
        | cons c b =>
            have halphanum := hrun.isAlphanum c (by simp)
            exact absurd halphanum (hstops c (hright hb rfl))
  | unclosed content => exact hstops
  | _ => trivial

/-- Pieces that are as long as they can be may stand next to each other. -/
theorem IsCuttingOf.isCutting (h : IsCuttingOf src ps) : IsCutting ps := by
  refine ⟨h.wellFormed, ?_⟩
  apply List.isChain_iff_forall_rel_of_append_cons_cons.mpr
  intro p q l r hps
  have hp : p.WellFormed := h.wellFormed p (by simp [hps])
  have hq : q.WellFormed := h.wellFormed q (by simp [hps])
  have hstops := (h.maximal l p (q :: r) hps).stopsAt hp
  exact mayPrecede_of_stopsAt hq hstops

/-- **There is one cutting of a text into maximal pieces**, the one that the scanner finds. -/
theorem isCuttingOf_iff : IsCuttingOf src ps ↔ ps = cut src := by
  constructor
  · intro h
    rw [← h.chars, cut_chars h.isCutting]
  · rintro rfl
    refine ⟨chars_cut src, wellFormed_cut src, ?_⟩
    intro l p r hcut
    apply IsCutting.isMaximal
    rw [← hcut]
    exact isCutting_cut src

end FormLang
