import FormLang.Proofs.Token.Scan

/-!
# `FormLang.Proofs.Token.Layout` — lexemes that are written and scanned

A program can be written in many ways: a number may have zeros in front, and any spaces may stand before,
between and after the lexemes. Only a word after a word, a number after a word and a number after a number
have to be kept apart. Whatever the layout, the scanner finds the lexemes again.

## Contents
- `Piece.Spells`: the spellings of a lexeme.
- `Lexeme.RunsInto`: lexemes that do not stay apart by themselves.
- `Written`, `Layout`: lexemes with their spellings and the spaces around them.
- `cut_written`, `tokensFrom_written`: the pieces of a layout, and their tokens.
- `Layout.crlf`: a layout with other line ends.
- `scan_layout`: a layout is scanned to its lexemes.
-/

namespace FormLang

open Text

/-! ## Lexemes as they are written -/

/-- The piece is a way to write the lexeme. -/
inductive Piece.Spells : Piece → Lexeme → Prop
  | lparen : Spells .lparen .lparen
  | rparen : Spells .rparen .rparen
  /-- Zeros in front count as digits, and make no difference to the number. -/
  | number {ds : List Char} (nonempty : ds ≠ []) (digits : ∀ d ∈ ds, d.isDigit = true)
      (length : ds.length ≤ Numeral.maxDigits) :
      Spells (.digits ds) (.number (Nat.ofDigitChars 10 ds 0))
  | text {content : List Char} (unquoted : '"' ∉ content) :
      Spells (.quoted content) (.text (String.ofList content))
  | name {cs : List Char} (word : IsWord cs) : Spells (.word cs) (.name (String.ofList cs))

/-- Written side by side, the first lexeme would go on into the second. -/
def Lexeme.RunsInto : Lexeme → Lexeme → Prop
  | .name _, .name _ | .name _, .number _ | .number _, .number _ => True
  | _, _ => False

/-- A lexeme as it is written, with the spaces in front of it. -/
structure Written where
  spaces : List Char
  piece : Piece
  lexeme : Lexeme
  isSpace : ∀ c ∈ spaces, IsSpace c
  spells : piece.Spells lexeme

namespace Written

/-- The spaces and the characters of the lexeme. -/
def chars (w : Written) : List Char := w.spaces ++ w.piece.chars

/-- The pieces of the spaces and of the lexeme. -/
def pieces (w : Written) : List Piece := w.spaces.map Piece.space ++ [w.piece]

/-- There are spaces between two lexemes the first of which would go on into the second. -/
def Apart (v w : Written) : Prop := v.lexeme.RunsInto w.lexeme → w.spaces ≠ []

end Written

/-- A program as it is written: lexemes that stay apart, and the spaces after the last of them. -/
structure Layout where
  written : List Written
  closing : List Char
  apart : written.IsChain Written.Apart
  isSpace : ∀ c ∈ closing, IsSpace c

namespace Layout

/-- The lexemes that are written. -/
def lexemes (l : Layout) : List Lexeme := l.written.map Written.lexeme

/-- The characters of the text. -/
def chars (l : Layout) : List Char := l.written.flatMap Written.chars ++ l.closing

/-- The text. -/
def source (l : Layout) : String := String.ofList l.chars

/-- The tokens of the lexemes and of the end of the program. The line of each is one more than there are
newlines before it. -/
def tokens (l : Layout) : List Token :=
  l.written.mapIdx (fun i w =>
    ⟨w.lexeme, 1 + newlines ((l.written.take i).flatMap Written.chars ++ w.spaces)⟩)
  ++ [⟨.eof, 1 + newlines l.chars⟩]

end Layout

variable {p q : Piece} {x y : Lexeme} {s cs closing : List Char} {v w : Written} {ws : List Written}
  {line : Nat}

/-! ## Spellings -/

namespace Piece

theorem Spells.wellFormed (h : p.Spells x) : p.WellFormed := by
  cases h with
  | lparen => trivial
  | rparen => trivial
  | number hne hdigits _ => exact ⟨hne, hdigits⟩
  | text hcontent => exact hcontent
  | name hword => exact hword

theorem Spells.lexeme?_eq (h : p.Spells x) : p.lexeme? = some x := by
  cases h with
  | number _ _ hlength =>
      rw [lexeme?_digits, Numeral.read?, if_pos hlength]
      rfl
  | _ => rfl

theorem Spells.fault?_eq (h : p.Spells x) (line : Nat) : p.fault? line = none := by
  cases h with
  | number _ _ hlength => rw [fault?, Numeral.read?, if_pos hlength]
  | _ => rfl

/-- What does not run into the next lexeme may stand right before it. -/
theorem Spells.mayPrecede (hp : p.Spells x) (hq : q.Spells y) (h : ¬x.RunsInto y) :
    p.MayPrecede q := by
  cases hp <;> cases hq <;> first | trivial | exact absurd trivial h

/-- A space ends whatever is written. -/
theorem Spells.mayPrecede_space (hp : p.Spells x) (c : Char) : p.MayPrecede (space c) := by
  unfold space
  cases hp <;> split <;> trivial

/-- What is written ends before spaces, if there are any. -/
theorem Spells.stopsAt_spaces (hp : p.Spells x) (hs : ∀ c ∈ s, IsSpace c)
    (hcs : s = [] → p.StopsAt cs) : p.StopsAt (s ++ cs) := by
  cases s with
  | nil => exact hcs rfl
  | cons c s =>
      have hc := wellFormed_space (hs c List.mem_cons_self)
      have hstops : p.StopsAt ((space c).chars ++ (s ++ cs)) :=
        stopsAt_of_mayPrecede hc (hp.mayPrecede_space c)
      rwa [chars_space] at hstops

end Piece

/-! ## The pieces of a layout -/

/-- A written lexeme ends where the next one begins. -/
theorem Written.stopsAt (hv : v.Apart w) (cs : List Char) : v.piece.StopsAt (w.chars ++ cs) := by
  rw [Written.chars, List.append_assoc]
  refine v.spells.stopsAt_spaces w.isSpace fun hnone => ?_
  exact stopsAt_of_mayPrecede w.spells.wellFormed (v.spells.mayPrecede w.spells fun h => hv h hnone)

/-- **The scanner finds the pieces of a layout.** -/
theorem cut_written (hapart : ws.IsChain Written.Apart) (hclosing : ∀ c ∈ closing, IsSpace c) :
    cut (ws.flatMap Written.chars ++ closing)
      = ws.flatMap Written.pieces ++ closing.map Piece.space := by
  induction ws with
  | nil =>
      have hcut := cut_spaces hclosing []
      rw [List.append_nil] at hcut
      exact hcut.trans (List.append_nil _)
  | cons w ws ih =>
      -- what comes next ends the lexeme: the text, spaces, or a lexeme that stays apart
      have hstops : w.piece.StopsAt (ws.flatMap Written.chars ++ closing) := by
        cases ws with
        | nil =>
            have hend : w.piece.StopsAt (closing ++ []) :=
              w.spells.stopsAt_spaces hclosing fun _ => stopsAt_nil w.piece
            rwa [List.append_nil] at hend
        | cons v ws =>
            rw [List.flatMap_cons, List.append_assoc]
            exact Written.stopsAt (List.isChain_cons_cons.mp hapart).1 _
      rw [List.flatMap_cons, Written.chars, List.append_assoc, List.append_assoc,
        cut_spaces w.isSpace, cut, cutFrom_chars w.spells.wellFormed hstops, ← cut,
        ih hapart.tail, List.flatMap_cons, Written.pieces]
      simp only [List.append_assoc, List.cons_append, List.nil_append]

/-! ## The tokens of a layout -/

theorem tokensFrom_spaces (s : List Char) (line : Nat) (ps : List Piece) :
    tokensFrom line (s.map Piece.space ++ ps) = tokensFrom (line + newlines s) ps := by
  induction s generalizing line with
  | nil => rfl
  | cons c s ih =>
      rw [List.map_cons, List.cons_append, tokensFrom, (Piece.space_silent c).1]
      show tokensFrom (line + (Piece.space c).lines) _ = _
      rw [ih, Piece.lines, Piece.chars_space, Nat.add_assoc, ← newlines_append]
      rfl

/-- The token of a written lexeme comes after the newlines in front of it. -/
theorem tokensFrom_pieces (w : Written) (line : Nat) (ps : List Piece) :
    tokensFrom line (w.pieces ++ ps)
      = ⟨w.lexeme, line + newlines w.spaces⟩ :: tokensFrom (line + newlines w.chars) ps := by
  rw [Written.pieces, List.append_assoc, tokensFrom_spaces, List.singleton_append, tokensFrom,
    w.spells.lexeme?_eq, Written.chars, newlines_append, Nat.add_assoc]
  rfl

/-- **The tokens of the pieces of a layout.** -/
theorem tokensFrom_written (ws : List Written) (closing : List Char) (line : Nat) :
    tokensFrom line (ws.flatMap Written.pieces ++ closing.map Piece.space)
      = ws.mapIdx (fun i w =>
          ⟨w.lexeme, line + newlines ((ws.take i).flatMap Written.chars ++ w.spaces)⟩)
        ++ [⟨.eof, line + newlines (ws.flatMap Written.chars ++ closing)⟩] := by
  induction ws generalizing line with
  | nil =>
      have hspaces := tokensFrom_spaces closing line []
      rw [List.append_nil] at hspaces
      exact hspaces
  | cons w ws ih =>
      rw [List.flatMap_cons, List.append_assoc, tokensFrom_pieces, ih, List.mapIdx_cons]
      simp only [List.take_zero, List.take_succ_cons, List.flatMap_nil, List.flatMap_cons,
        List.nil_append, List.append_assoc, newlines_append, Nat.add_assoc, List.cons_append]

theorem fault?_of_mem_pieces (hp : p ∈ w.pieces) (line : Nat) : p.fault? line = none := by
  rcases List.mem_append.mp hp with hspace | hpiece
  · obtain ⟨c, -, rfl⟩ := List.mem_map.mp hspace
    exact (Piece.space_silent c).2 line
  · rw [List.mem_singleton.mp hpiece]
    exact w.spells.fault?_eq line

/-- A layout is scanned to its tokens, without a diagnostic. -/
theorem Layout.scan_source (l : Layout) : scan l.source = ⟨l.tokens, []⟩ := by
  have hcut : cut l.source.toList
      = l.written.flatMap Written.pieces ++ l.closing.map Piece.space := by
    rw [Layout.source, String.toList_ofList]
    exact cut_written l.apart l.isSpace
  have hfaults : ∀ p ∈ cut l.source.toList, ∀ line, p.fault? line = none := by
    intro p hp line
    rw [hcut] at hp
    rcases List.mem_append.mp hp with hwritten | hclosing
    · obtain ⟨w, -, hp⟩ := List.mem_flatMap.mp hwritten
      exact fault?_of_mem_pieces hp line
    · obtain ⟨c, -, rfl⟩ := List.mem_map.mp hclosing
      exact (Piece.space_silent c).2 line
  have htokens : tokensFrom 1 (cut l.source.toList) = l.tokens := by
    rw [hcut]
    exact tokensFrom_written l.written l.closing 1
  rw [scan, htokens, faultsFrom_eq_nil hfaults]

/-! ## Other line ends -/

/-- Every newline with a carriage return in front of it. -/
def crlf (s : List Char) : List Char := s.flatMap fun c => if c = '\n' then ['\r', '\n'] else [c]

theorem newlines_crlf (s : List Char) : newlines (crlf s) = newlines s := by
  induction s with
  | nil => rfl
  | cons c s ih =>
      have hc : newlines (if c = '\n' then ['\r', '\n'] else [c]) = newlines [c] := by
        split
        · next h => rw [h]; rfl
        · rfl
      rw [crlf, List.flatMap_cons, newlines_append, hc, ← crlf, ih, ← newlines_append]
      rfl

theorem isSpace_crlf (h : ∀ c ∈ s, IsSpace c) : ∀ c ∈ crlf s, IsSpace c := by
  intro c hc
  obtain ⟨d, hd, hc⟩ := List.mem_flatMap.mp hc
  split at hc
  · rcases List.mem_pair.mp hc with rfl | rfl <;> decide
  · rw [List.mem_singleton.mp hc]
    exact h d hd

theorem crlf_ne_nil (h : s ≠ []) : crlf s ≠ [] := by
  obtain ⟨c, s, rfl⟩ := List.exists_cons_of_ne_nil h
  rw [crlf, List.flatMap_cons]
  split <;> exact List.cons_ne_nil _ _

/-- The lexeme as it is written, with carriage returns in front of the newlines before it. -/
def Written.crlf (w : Written) : Written :=
  { w with spaces := FormLang.crlf w.spaces, isSpace := isSpace_crlf w.isSpace }

/-- The layout with carriage returns in front of all newlines between the lexemes. -/
def Layout.crlf (l : Layout) : Layout where
  written := l.written.map Written.crlf
  closing := FormLang.crlf l.closing
  apart :=
    (List.isChain_map Written.crlf).mpr (l.apart.imp fun _ _ hapart h => crlf_ne_nil (hapart h))
  isSpace := isSpace_crlf l.isSpace

theorem newlines_flatMap_crlf (ws : List Written) :
    newlines ((ws.map Written.crlf).flatMap Written.chars) = newlines (ws.flatMap Written.chars) := by
  induction ws with
  | nil => rfl
  | cons w ws ih =>
      rw [List.map_cons, List.flatMap_cons, List.flatMap_cons, newlines_append, newlines_append, ih,
        Written.chars, Written.chars, newlines_append, newlines_append]
      exact congrArg (· + _ + _) (newlines_crlf w.spaces)

/-- Carriage returns in front of newlines move no lexeme to another line. -/
theorem Layout.tokens_crlf (l : Layout) : l.crlf.tokens = l.tokens := by
  have hend : newlines l.crlf.chars = newlines l.chars := by
    rw [Layout.chars, Layout.chars, newlines_append, newlines_append]
    exact congr (congrArg _ (newlines_flatMap_crlf l.written)) (newlines_crlf l.closing)
  rw [Layout.tokens, Layout.tokens, hend]
  refine congrArg (· ++ _) (List.ext_getElem (by simp [Layout.crlf]) fun i _ _ => ?_)
  rw [List.getElem_mapIdx, List.getElem_mapIdx]
  simp only [Layout.crlf, List.getElem_map, Written.crlf, newlines_append, newlines_crlf,
    ← List.map_take]
  rw [newlines_flatMap_crlf]

theorem Layout.lexemes_tokens (l : Layout) : l.tokens.map Token.lexeme = l.lexemes ++ [.eof] := by
  rw [Layout.tokens, List.map_append]
  refine congrArg (· ++ [Lexeme.eof]) (List.ext_getElem ?_ fun i _ _ => ?_)
  · simp [Layout.lexemes]
  · simp [Layout.lexemes]

/-! ## Scanning a layout -/

/-- **What is written is scanned, whatever the layout.** There is nothing to report, and the lexemes are
found in order, each on the line on which it begins. So a program with another layout has the same
lexemes, and with other line ends between them it even has the same tokens. -/
theorem scan_layout (l : Layout) :
    scan l.source = ⟨l.tokens, []⟩ ∧
      (∀ l' : Layout, l'.lexemes = l.lexemes →
        (scan l'.source).tokens.map Token.lexeme = (scan l.source).tokens.map Token.lexeme) ∧
      scan l.crlf.source = scan l.source := by
  refine ⟨l.scan_source, fun l' h => ?_, ?_⟩
  · rw [l'.scan_source, l.scan_source, l'.lexemes_tokens, l.lexemes_tokens, h]
  · rw [l.crlf.scan_source, l.scan_source, l.tokens_crlf]

/-- Lexemes of all kinds with as few spaces between them as there can be. -/
def Layout.touching : Layout where
  written :=
    [⟨['\t'], .lparen, .lparen, by decide, .lparen⟩,
      ⟨[], .word ['a', 'd', 'd'], .name "add", by decide, .name ⟨rfl, List.all_eq_true.mp rfl⟩⟩,
      ⟨[' '], .digits ['0', '0', '7'], .number 7, by decide,
        .number (by simp) (List.all_eq_true.mp rfl) (by decide)⟩,
      ⟨[], .word ['x', '1'], .name "x1", by decide, .name ⟨rfl, List.all_eq_true.mp rfl⟩⟩,
      ⟨[], .quoted ['a', '\n', 'b'], .text "a\nb", by decide, .text (by decide)⟩,
      ⟨[], .digits ['1', '2'], .number 12, by decide,
        .number (by simp) (List.all_eq_true.mp rfl) (by decide)⟩,
      ⟨['\n'], .digits ['3'], .number 3, by decide,
        .number (by simp) (List.all_eq_true.mp rfl) (by decide)⟩,
      ⟨[], .rparen, .rparen, by decide, .rparen⟩]
  closing := ['\n']
  apart := by simp [Written.Apart, Lexeme.RunsInto]
  isSpace := by decide

/-- A number may be followed by a word at once, and a line may end within a text. -/
theorem scan_layout_touching :
    scan "\t(add 007x1\"a\nb\"12\r\n3)\r\n" =
      ⟨[⟨.lparen, 1⟩, ⟨.name "add", 1⟩, ⟨.number 7, 1⟩, ⟨.name "x1", 1⟩, ⟨.text "a\nb", 1⟩,
        ⟨.number 12, 2⟩, ⟨.number 3, 3⟩, ⟨.rparen, 3⟩, ⟨.eof, 4⟩], []⟩ := by
  obtain ⟨htokens, -, hcrlf⟩ := scan_layout .touching
  exact hcrlf.trans htokens

end FormLang
