import FormLang.Proofs.Token.Scan
import FormLang.Proofs.Tree.Flatten
import FormLang.Session

/-!
# `FormLang.Proofs.Tree.Source` — the trees of program texts

A tree that comes from a program text is the remark that the text is unterminated, or a list whose
parts have been written: the numbers can be written out, the texts hold no quote, the names are words,
lists are nested no deeper than `maxDepth`, and the one remark inside is that a list is nested too
deep.

## Contents
- `Tree.IsWritten`: a leaf that some text is read to.
- `ofSource_written`: the shape of the tree of a text.
- `ofSource_of_lexemes`: a text whose pieces have the lexemes of a tree is read as the tree.
-/

namespace FormLang
namespace Tree

/-- A leaf that can be written: its number is not negative and has not too many digits, its text holds
no quote, and its name is a word. -/
def IsWritten : Tree → Prop
  | .number n => 0 ≤ n ∧ n.natAbs < Numeral.limit
  | .text s => '"' ∉ s.toList
  | .name s => Piece.IsWord s.toList
  | .list _ | .error _ | .foreign _ => False

/-- The atom of a lexeme from a text can be written. -/
theorem isWritten_atom {x : Lexeme} {a : Tree} (ha : x.atom? = some a) (hx : x.IsWritten) :
    a.IsWritten ∧ a.depth = 0 := by
  cases x with
  | number n => exact Option.some.inj ha ▸ ⟨hx, rfl⟩
  | text s => exact Option.some.inj ha ▸ ⟨hx, rfl⟩
  | name s => exact Option.some.inj ha ▸ ⟨hx, rfl⟩
  | _ => cases ha

/-- A tree that may stand as an element of a list at the given level. -/
def WrittenAt (level : Nat) (t : Tree) : Prop :=
  t.Leaves (fun u => u.IsWritten ∨ u = tooDeep) ∧ t.depth + level ≤ maxDepth

theorem leaves_of_isWritten {p : Tree → Prop} {t : Tree} (h : t.IsWritten) (hp : p t) :
    t.Leaves p := by
  cases t with
  | list ts => exact absurd h id
  | _ => exact hp

/-- The reader keeps all parts written. -/
theorem fits_writtenAt {ts : List Token} (h : ∀ t ∈ ts, t.lexeme.IsWritten) :
    Fits WrittenAt ts where
  atom t ht a ha level _ hlevel := by
    obtain ⟨hwritten, hdepth⟩ := isWritten_atom ha (h t ht)
    refine ⟨leaves_of_isWritten hwritten (Or.inl hwritten), ?_⟩
    rw [hdepth, Nat.zero_add]
    exact hlevel
  tooDeep := ⟨Or.inr rfl, Nat.le_of_eq (Nat.zero_add maxDepth)⟩
  list us _ _ hlevel hus :=
    ⟨leaves_list.mpr fun u hu => (hus u hu).1, depth_list_add_le hlevel fun u hu => (hus u hu).2⟩

/-- **The tree of a program text is unterminated or a list with all its parts written.** -/
theorem ofSource_written (src : String) :
    (Tree.ofSource src).tree = unterminated ∨
      ∃ us, (Tree.ofSource src).tree = .list us ∧ ∀ u ∈ us, WrittenAt 1 u :=
  parse_fits (fits_writtenAt (isWritten_scan src))

/-- **A text whose pieces have the lexemes of a list is read as the list**, if there is nothing to report
about them and the list is not nested too deep. -/
theorem ofSource_of_lexemes {src : String} {us : List Tree}
    (hlexemes : (cut src.toList).filterMap Piece.lexeme? = (list us).lexemes)
    (hfault : ∀ p ∈ cut src.toList, ∀ line, p.fault? line = none)
    (hatoms : (list us).Leaves IsAtom) (hdepth : (list us).depth ≤ maxDepth) :
    Tree.ofSource src = ⟨list us, []⟩ := by
  have hscan : (scan src).tokens.map Token.lexeme = (list us).lexemes ++ [.eof] := by
    rw [← hlexemes]
    exact lexemes_tokensFrom 1 (cut src.toList)
  -- the token at the end of the text is one more that the reader ignores
  obtain ⟨ts, suffix, htokens, hts, -⟩ := List.map_eq_append_iff.mp hscan
  have hparse : Tree.parse (scan src).tokens = ⟨list us, []⟩ := by
    rw [htokens, parse_lexemes (leaves_list.mp hatoms) hts,
      truncateFrom_eq_self (Nat.add_le_add_right hdepth 1)]
  have hsilent : (scan src).diagnostics = [] := faultsFrom_eq_nil hfault 1
  simp only [Tree.ofSource, hsilent, hparse, List.append_nil]

end Tree
end FormLang
