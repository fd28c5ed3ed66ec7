import FormLang.Proofs.Tree.Source

/-!
# `FormLang.Proofs.Tree.Reread` — a tree that is written as a text is read back

A tree is written with single blanks between the elements of a list. Every atom is then followed by a
blank or a parenthesis, so that the scanner finds the pieces that were written; their lexemes are those
of the tree, and the reader gives the tree back.

## Contents
- `Tree.pieces`: the pieces of a tree as it is written.
- `render_source`: the text of a tree consists of these pieces.
- `cutFrom_pieces`: the scanner finds them.
- `lexemes_pieces`: their lexemes are those of the tree.
- `ofSource_render`: the text is read as the tree.
-/

namespace FormLang
namespace Tree

/-! ## Trees as pieces -/

mutual

/-- The pieces of a tree as it is written. -/
def pieces : Tree → List Piece
  | .number n => [.digits (Nat.toDigits 10 n.natAbs)]
  | .text s => [.quoted s.toList]
  | .name s => [.word s.toList]
  | .list ts => .lparen :: (piecesAll ts ++ [.rparen])
  | .error _ | .foreign _ => []

/-- The pieces of the elements of a list, with a blank between any two of them. -/
def piecesAll : List Tree → List Piece
  | [] => []
  | [t] => pieces t
  | t :: u :: ts => pieces t ++ .blank ' ' :: piecesAll (u :: ts)

end

/-- The text of the pieces of a tree. -/
def source (t : Tree) : String := String.ofList (t.pieces.flatMap Piece.chars)

/-- The texts of elements with blanks between them are the text of their pieces. -/
theorem intercalate_source (ts : List Tree) :
    " ".intercalate (ts.map source) = String.ofList ((piecesAll ts).flatMap Piece.chars) := by
  match ts with
  | [] => rfl
  | [t] => rfl
  | t :: u :: ts =>
      have ih := intercalate_source (u :: ts)
      rw [List.map_cons] at ih
      rw [List.map_cons, List.map_cons, String.intercalate_cons_cons, ih, piecesAll,
        List.flatMap_append, List.flatMap_cons, String.ofList_append, String.ofList_append,
        String.append_assoc]
      rfl

/-- The texts of the elements of a list are written one by one. -/
theorem renderAll_source {ts : List Tree} (h : ∀ t ∈ ts, t.render = .ok t.source) :
    renderAll ts = .ok (ts.map source) := by
  induction ts with
  | nil => rfl
  | cons t ts ih =>
      rw [renderAll, h t List.mem_cons_self, ih fun u hu => h u (List.mem_cons_of_mem t hu)]
      rfl

/-- **A tree is written as its pieces.** -/
theorem render_source {t : Tree} (ht : t.Leaves IsWritten) : t.render = .ok t.source := by
  induction t with
  | number n =>
      rw [render, Numeral.digitsOrFail_of_lt ht.2, Numeral.decimal_of_nonneg ht.1, source, pieces,
        List.flatMap_singleton]
      rfl
  | text s =>
      rw [render, source, pieces, List.flatMap_singleton, Piece.chars, String.ofList_cons,
        String.ofList_append, String.ofList_toList]
      rfl
  | name s =>
      rw [render, source, pieces, List.flatMap_singleton, Piece.chars, String.ofList_toList]
  | list ts ih =>
      rw [leaves_list] at ht
      rw [render, renderAll_source fun t hmem => ih t hmem (ht t hmem)]
      show Except.ok ("(" ++ " ".intercalate (ts.map source) ++ ")") = _
      rw [intercalate_source, source, pieces, List.flatMap_cons, List.flatMap_append,
        String.ofList_append, String.ofList_append, ← String.append_assoc]
      rfl
  | error message => exact absurd ht id
  | foreign v => exact absurd ht id

/-! ## The scanner finds the pieces -/

/-- The text continues neither a number nor a word. -/
def Delimits (cs : List Char) : Prop := ∀ c, cs.head? = some c → c.isAlphanum = false

theorem delimits_cons {c : Char} (h : c.isAlphanum = false) (cs : List Char) : Delimits (c :: cs) :=
  fun _ hc => Option.some.inj hc ▸ h

theorem Delimits.not_isDigit {cs : List Char} (h : Delimits cs) {c : Char} (hc : cs.head? = some c) :
    ¬c.isDigit := by
  have halphanum := h c hc
  simp [Char.isAlphanum] at halphanum
  simp [halphanum]

/-- The scanner finds the pieces of the elements of a list if it finds those of each of them. -/
theorem cutFrom_piecesAll {ts : List Tree}
    (h : ∀ t ∈ ts, ∀ cs, Delimits cs →
      cutFrom .nothing (t.pieces.flatMap Piece.chars ++ cs) = t.pieces ++ cutFrom .nothing cs)
    {cs : List Char} (hcs : Delimits cs) :
    cutFrom .nothing ((piecesAll ts).flatMap Piece.chars ++ cs)
      = piecesAll ts ++ cutFrom .nothing cs := by
  match ts with
  | [] => rfl
  | [t] => exact h t List.mem_cons_self cs hcs
  | t :: u :: ts =>
      have ih := cutFrom_piecesAll (fun v hv => h v (List.mem_cons_of_mem t hv)) hcs
      -- without the blank a number or a name could run on into the next element
      have hblank : Delimits ((Piece.blank ' ').chars
          ++ ((piecesAll (u :: ts)).flatMap Piece.chars ++ cs)) := delimits_cons rfl _
      rw [piecesAll, List.flatMap_append, List.flatMap_cons, List.append_assoc, List.append_assoc,
        h t List.mem_cons_self _ hblank, cutFrom_chars (p := .blank ' ') rfl trivial, ih,
        List.append_assoc, List.cons_append]

/-- **The scanner finds the pieces of a tree** where a text follows that continues neither a number nor
a word. -/
theorem cutFrom_pieces {t : Tree} (ht : t.Leaves IsWritten) {cs : List Char} (hcs : Delimits cs) :
    cutFrom .nothing (t.pieces.flatMap Piece.chars ++ cs) = t.pieces ++ cutFrom .nothing cs := by
  induction t generalizing cs with
  | number n =>
      have hwell : (Piece.digits (Nat.toDigits 10 n.natAbs)).WellFormed :=
        ⟨Nat.toDigits_ne_nil, fun d hd => Nat.isDigit_of_mem_toDigits (by decide) (by decide) hd⟩
      rw [pieces, List.flatMap_singleton, cutFrom_chars hwell fun c hc => hcs.not_isDigit hc]
      rfl
  | text s =>
      rw [pieces, List.flatMap_singleton, cutFrom_chars (p := .quoted s.toList) ht trivial]
      rfl
  | name s =>
      rw [pieces, List.flatMap_singleton,
        cutFrom_chars (p := .word s.toList) ht fun c hc => by simp [hcs c hc]]
      rfl
  | list ts ih =>
      rw [leaves_list] at ht
      -- the last element is followed by the parenthesis, whatever follows the list
      have hall := cutFrom_piecesAll (fun t hmem cs' => ih t hmem (ht t hmem))
        (delimits_cons (c := ')') rfl cs)
      rw [pieces, List.flatMap_cons, List.flatMap_append, List.append_assoc, List.append_assoc,
        cutFrom_chars (p := .lparen) trivial trivial, List.flatMap_singleton]
      rw [show Piece.rparen.chars ++ cs = ')' :: cs from rfl, hall,
        show ')' :: cs = Piece.rparen.chars ++ cs from rfl,
        cutFrom_chars (p := .rparen) trivial trivial, List.cons_append, List.append_assoc]
      rfl
  | error message => exact absurd ht id
  | foreign v => exact absurd ht id

/-! ## The pieces have the lexemes of the tree -/

/-- The lexemes of the elements of a list are those of their pieces if this holds for each of them:
blanks have none. -/
theorem lexemes_piecesAll {ts : List Tree}
    (h : ∀ t ∈ ts, t.pieces.filterMap Piece.lexeme? = t.lexemes) :
    (piecesAll ts).filterMap Piece.lexeme? = lexemesAll ts := by
  match ts with
  | [] => rfl
  | [t] =>
      rw [piecesAll, h t List.mem_cons_self, lexemesAll, lexemesAll, List.append_nil]
  | t :: u :: ts =>
      have ih := lexemes_piecesAll fun v hv => h v (List.mem_cons_of_mem t hv)
      rw [piecesAll, List.filterMap_append, h t List.mem_cons_self, List.filterMap_cons_none rfl, ih]
      rfl

/-- A number that is not negative has the piece of its digits. -/
theorem lexeme?_toDigits {n : Int} (hnonneg : 0 ≤ n) (hlimit : n.natAbs < Numeral.limit) :
    (Piece.digits (Nat.toDigits 10 n.natAbs)).lexeme? = some (.number n) := by
  rw [Piece.lexeme?_digits, Numeral.read?_toDigits hlimit, Option.map_some,
    Int.natAbs_of_nonneg hnonneg]

/-- **The pieces of a tree have the lexemes of the tree.** -/
theorem lexemes_pieces {t : Tree} (ht : t.Leaves IsWritten) :
    t.pieces.filterMap Piece.lexeme? = t.lexemes := by
  induction t with
  | number n =>
      rw [pieces, List.filterMap_cons_some (lexeme?_toDigits ht.1 ht.2)]
      rfl
  | text s => simp only [pieces, List.filterMap_cons, Piece.lexeme?, String.ofList_toList]; rfl
  | name s => simp only [pieces, List.filterMap_cons, Piece.lexeme?, String.ofList_toList]; rfl
  | list ts ih =>
      rw [leaves_list] at ht
      have hall := lexemes_piecesAll fun t hmem => ih t hmem (ht t hmem)
      simp only [pieces, List.filterMap_cons, List.filterMap_append, Piece.lexeme?, hall, lexemes]
      rfl
  | error message => exact absurd ht id
  | foreign v => exact absurd ht id

/-- The pieces between those of the elements of a list are blanks. -/
theorem mem_piecesAll {ts : List Tree} {p : Piece} (hp : p ∈ piecesAll ts) :
    p = .blank ' ' ∨ ∃ t ∈ ts, p ∈ t.pieces := by
  match ts with
  | [] => exact absurd hp List.not_mem_nil
  | [t] => exact .inr ⟨t, List.mem_cons_self, hp⟩
  | t :: u :: ts =>
      rw [piecesAll, List.mem_append, List.mem_cons] at hp
      rcases hp with hp | hp | hp
      · exact .inr ⟨t, List.mem_cons_self, hp⟩
      · exact .inl hp
      · rcases mem_piecesAll hp with hblank | ⟨v, hv, hp⟩
        · exact .inl hblank
        · exact .inr ⟨v, List.mem_cons_of_mem t hv, hp⟩

/-- There is nothing to report about the pieces of a tree. -/
theorem fault?_pieces {t : Tree} (ht : t.Leaves IsWritten) :
    ∀ p ∈ t.pieces, ∀ line, p.fault? line = none := by
  induction t with
  | number n =>
      intro p hp line
      rw [pieces, List.mem_singleton] at hp
      rw [hp, Piece.fault?, Numeral.read?_toDigits ht.2]
  | text s =>
      intro p hp line
      rw [List.mem_singleton.mp hp, Piece.fault?]
  | name s =>
      intro p hp line
      rw [List.mem_singleton.mp hp, Piece.fault?]
  | list ts ih =>
      intro p hp line
      rw [leaves_list] at ht
      rw [pieces, List.mem_cons, List.mem_append, List.mem_singleton] at hp
      rcases hp with rfl | hp | rfl
      · rfl
      · rcases mem_piecesAll hp with rfl | ⟨t, hmem, hp⟩
        · rfl
        · exact ih t hmem (ht t hmem) p hp line
      · rfl
  | error message => exact absurd ht id
  | foreign v => exact absurd ht id

/-! ## The text is read as the tree -/

/-- The atoms that can be written are atoms. -/
theorem IsWritten.isAtom {t : Tree} (h : t.IsWritten) : t.IsAtom := by
  cases t with
  | number n => trivial
  | text s => trivial
  | name s => trivial
  | list ts => exact absurd h id
  | error message => exact absurd h id
  | foreign v => exact absurd h id

/-- **The text of a list is read as the list.** -/
theorem ofSource_source {us : List Tree} (hwritten : (list us).Leaves IsWritten)
    (hdepth : (list us).depth ≤ maxDepth) :
    Tree.ofSource (list us).source = ⟨list us, []⟩ := by
  have hpieces : cut (list us).source.toList = (list us).pieces := by
    have hend : Delimits [] := fun c hc => by cases hc
    have hcut := cutFrom_pieces hwritten hend
    rw [List.append_nil] at hcut
    rw [source, String.toList_ofList, cut, hcut]
    exact List.append_nil _
  apply ofSource_of_lexemes
  · rw [hpieces, lexemes_pieces hwritten]
  · rw [hpieces]
    exact fault?_pieces hwritten
  · exact hwritten.imp fun _ => IsWritten.isAtom
  · exact hdepth

/-- The tree of a program text without remarks is a list that can be written and read. -/
theorem ofSource_list {src : String}
    (herror : (Tree.ofSource src).tree.Leaves fun u => ∀ message, u ≠ .error message) :
    ∃ us, (Tree.ofSource src).tree = .list us ∧ (list us).Leaves IsWritten ∧
      (list us).depth ≤ maxDepth := by
  rcases ofSource_written src with hunterminated | ⟨us, htree, hus⟩
  · rw [hunterminated] at herror
    exact absurd rfl (herror "unterminated list")
  · rw [htree] at herror
    refine ⟨us, htree, ?_, ?_⟩
    · have hleaves : (list us).Leaves fun u => u.IsWritten ∨ u = tooDeep :=
        leaves_list.mpr fun u hu => (hus u hu).1
      refine (hleaves.and herror).imp ?_
      rintro u ⟨hwritten | rfl, hremark⟩
      · exact hwritten
      · exact absurd rfl (hremark "nesting too deep")
    · have hdepth : (list us).depth ≤ maxDepth - 1 + 1 :=
        depth_list_le_iff.mpr fun u hu => Nat.le_sub_of_add_le (hus u hu).2
      exact hdepth

/-- **Writing a tree and reading it are inverse.** A list whose numbers, texts and names can be written,
with lists nested no deeper than `maxDepth`, has a text that is read as this list with nothing to
report. So has the tree of any program text, whatever there was to report about it, if no remark stands
in it. -/
theorem ofSource_render :
    (∀ t : Tree, (∃ us, t = .list us) → t.Leaves IsWritten → t.depth ≤ maxDepth →
      ∃ s, t.render = .ok s ∧ Tree.ofSource s = ⟨t, []⟩) ∧
    (∀ src, (Tree.ofSource src).tree.Leaves (fun u => ∀ message, u ≠ .error message) →
      ∃ s, (Tree.ofSource src).tree.render = .ok s ∧
        Tree.ofSource s = ⟨(Tree.ofSource src).tree, []⟩) := by
  have hinverse : ∀ us, (list us).Leaves IsWritten → (list us).depth ≤ maxDepth →
      ∃ s, (list us).render = .ok s ∧ Tree.ofSource s = ⟨list us, []⟩ :=
    fun us hwritten hdepth =>
      ⟨(list us).source, render_source hwritten, ofSource_source hwritten hdepth⟩
  constructor
  · rintro _ ⟨us, rfl⟩ hwritten hdepth
    exact hinverse us hwritten hdepth
  · intro src herror
    obtain ⟨us, htree, hwritten, hdepth⟩ := ofSource_list herror
    rw [htree]
    exact hinverse us hwritten hdepth

/-- The greatest number that can be written, a text on two lines, and a name with a digit. -/
def extremes : Tree :=
  .list [.number (Numeral.limit - 1 : Nat), .text "a\nb", .list [.name "x1"]]

theorem ofSource_render_extremes :
    ∃ s, extremes.render = .ok s ∧ Tree.ofSource s = ⟨extremes, []⟩ := by
  have hnumber : (number (Numeral.limit - 1 : Nat)).Leaves IsWritten :=
    ⟨Int.natCast_nonneg _, Nat.sub_one_lt Numeral.limit_pos.ne'⟩
  have htext : (text "a\nb").Leaves IsWritten := by
    show '"' ∉ "a\nb".toList
    decide
  have hname : (name "x1").Leaves IsWritten := by
    show 'x'.isAlpha ∧ ∀ d ∈ ['1'], d.isAlphanum
    exact ⟨rfl, List.forall_mem_singleton.mpr rfl⟩
  have hwritten : extremes.Leaves IsWritten := ⟨hnumber, htext, ⟨hname, trivial⟩, trivial⟩
  have hdepth : extremes.depth ≤ maxDepth := by decide
  exact ofSource_render.1 extremes ⟨_, rfl⟩ hwritten hdepth

/-- Runs that stand next to each other come apart, and a text keeps its newline. -/
example : (Tree.ofSource "(print 12ab\t\"a\nb\"(12 ab))").tree.render
    = .ok "(print 12 ab \"a\nb\" (12 ab))" := by decide +kernel

end Tree
end FormLang
