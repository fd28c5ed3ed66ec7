import FormLang.Proofs.Source.Maximal

/-!
# `FormLang.Proofs.Source.Append` — texts written side by side

Two texts are cut apart again at the seam unless a run would go on across it. A text of spaces is cut
into as many pieces as it has characters, and never runs on into what follows.

## Contents
- `cut_append`: the pieces of two texts side by side.
- `IsSpace`, `Piece.space`, `cut_spaces`: spaces before a text.
-/

namespace FormLang

/-- **Texts side by side have their pieces side by side**, unless a piece at the seam would go on. -/
theorem cut_append {a b : List Char}
    (h : ∀ p ∈ (cut a).getLast?, ∀ q ∈ (cut b).head?, p.MayPrecede q) :
    cut (a ++ b) = cut a ++ cut b := by
  have ha := isCutting_cut a
  have hb := isCutting_cut b
  have hcutting : IsCutting (cut a ++ cut b) :=
    ⟨List.forall_mem_append.mpr ⟨ha.wellFormed, hb.wellFormed⟩,
      List.isChain_append.mpr ⟨ha.apart, hb.apart, h⟩⟩
  have hcut := cut_chars hcutting
  rwa [List.flatMap_append, chars_cut, chars_cut] at hcut

/-! ## Spaces -/

/-- A space, a carriage return, a tab or a newline. -/
def IsSpace (c : Char) : Prop := c ∈ [' ', '\r', '\t', '\n']

instance : DecidablePred IsSpace := fun _ => inferInstanceAs (Decidable (_ ∈ _))

-- goes through the text, and not through all characters there are
instance (s : List Char) : Decidable (∀ c ∈ s, IsSpace c) := List.decidableBAll IsSpace s

/-- The piece of a space. -/
def Piece.space (c : Char) : Piece := if c = '\n' then .newline else .blank c

theorem isSeparator_of_isSpace {c : Char} (h : IsSpace c) (hne : c ≠ '\n') : isSeparator c := by
  simp only [IsSpace, List.mem_cons, List.not_mem_nil, or_false] at h
  rcases h with rfl | rfl | rfl | rfl
  · rfl
  · rfl
  · rfl
  · exact absurd rfl hne

theorem Piece.chars_space (c : Char) : (Piece.space c).chars = [c] := by
  unfold Piece.space
  split
  · next h => rw [h]; rfl
  · rfl

theorem Piece.wellFormed_space {c : Char} (h : IsSpace c) : (Piece.space c).WellFormed := by
  unfold Piece.space
  split
  · trivial
  · next hne => exact isSeparator_of_isSpace h hne

/-- A space is a piece by itself, whatever follows. -/
theorem cut_space {c : Char} (h : IsSpace c) (cs : List Char) :
    cut (c :: cs) = Piece.space c :: cut cs := by
  unfold Piece.space
  by_cases hnewline : c = '\n'
  · rw [if_pos hnewline, hnewline]
    exact cutFrom_chars (p := .newline) trivial trivial
  · rw [if_neg hnewline]
    exact cutFrom_chars (p := .blank c) (isSeparator_of_isSpace h hnewline) trivial

/-- **Spaces are cut one by one**, whatever follows. -/
theorem cut_spaces {s : List Char} (h : ∀ c ∈ s, IsSpace c) (cs : List Char) :
    cut (s ++ cs) = s.map Piece.space ++ cut cs := by
  induction s with
  | nil => rfl
  | cons c s ih =>
      rw [List.cons_append, cut_space (h c List.mem_cons_self),
        ih fun d hd => h d (List.mem_cons_of_mem c hd)]
      rfl

end FormLang
