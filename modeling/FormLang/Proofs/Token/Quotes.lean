import FormLang.Proofs.Source.Append
import FormLang.Proofs.Token.Balance
import FormLang.Text.Blank

/-!
# `FormLang.Proofs.Token.Quotes` — texts that end inside quotes

What a text means to the scanner depends on what stands before it in one respect alone: whether it begins
inside quotes. Every quote changes this, and nothing else does. A text in front that does not end inside
quotes leaves its balance and its lexemes to what follows as they would be by themselves, unless a run
goes on across the seam; one that ends inside quotes makes the beginning of what follows part of a text.
White space is therefore without meaning in the one case, and part of the program in the other.

## Contents
- `endsQuoted`, `endsQuoted_eq_parity`: whether a text ends inside quotes.
- `balanceFrom_append`: the balance of texts side by side.
- `exists_unclosed_iff`: the scanner ends inside quotes exactly if the text does.
- `lexemesOf`, `cut_append_of_unquoted`, `lexemesOf_quoted`: lexemes on both sides of a seam, and of a
  text in quotes.
- `lexemesOf_blanks_iff`: blanks before a newline.
-/

namespace FormLang

open Text

/-! ## Quotes -/

/-- Whether a text ends inside quotes, `quoted` telling whether it begins so. -/
def endsQuoted (quoted : Bool) : List Char → Bool
  | [] => quoted
  | c :: cs => endsQuoted (if c = '"' then !quoted else quoted) cs

theorem endsQuoted_append (quoted : Bool) (a b : List Char) :
    endsQuoted quoted (a ++ b) = endsQuoted (endsQuoted quoted a) b := by
  induction a generalizing quoted with
  | nil => rfl
  | cons c a ih => exact ih _

theorem endsQuoted_of_not_mem {cs : List Char} (h : '"' ∉ cs) (quoted : Bool) :
    endsQuoted quoted cs = quoted := by
  induction cs generalizing quoted with
  | nil => rfl
  | cons c cs ih =>
      rw [List.mem_cons, not_or] at h
      obtain ⟨hc, hcs⟩ := h
      rw [endsQuoted, if_neg (Ne.symm hc)]
      exact ih hcs quoted

/-- **A text ends inside quotes exactly if the number of its quotes is odd.** -/
theorem endsQuoted_eq_parity (cs : List Char) :
    endsQuoted false cs = decide (cs.count '"' % 2 = 1) := by
  have hgeneral : ∀ quoted, endsQuoted quoted cs
      = decide ((cs.count '"' + if quoted then 1 else 0) % 2 = 1) := by
    induction cs with
    | nil =>
        intro quoted
        cases quoted <;> rfl
    | cons c cs ih =>
        intro quoted
        rw [endsQuoted, ih, List.count_cons]
        apply decide_eq_decide.mpr
        by_cases hc : c = '"'
        · cases quoted with
          | true => simp [hc]; omega
          | false => simp [hc]
        · simp [hc]
  simpa using hgeneral false

/-! ## Balances side by side -/

/-- **The balance of texts side by side.** -/
theorem balanceFrom_append (quoted : Bool) (a b : List Char) :
    balanceFrom quoted (a ++ b) = balanceFrom quoted a + balanceFrom (endsQuoted quoted a) b := by
  induction a generalizing quoted with
  | nil => simp [balanceFrom, endsQuoted]
  | cons c a ih =>
      rw [List.cons_append, balanceFrom, balanceFrom, endsQuoted]
      by_cases hquote : c = '"'
      · simp only [if_pos hquote, ih]
      · cases quoted with
        | true => simp only [if_neg hquote, if_true, ih]
        | false =>
            simp only [if_neg hquote, Bool.false_eq_true, if_false, ih]
            split
            · omega
            · split
              · omega
              · rfl

/-- Inside quotes nothing counts before the next quote. -/
theorem balanceFrom_quoted_of_not_mem {cs : List Char} (h : '"' ∉ cs) : balanceFrom true cs = 0 := by
  induction cs with
  | nil => rfl
  | cons c cs ih =>
      rw [List.mem_cons, not_or] at h
      obtain ⟨hc, hcs⟩ := h
      rw [balanceFrom, if_neg (Ne.symm hc), if_pos rfl]
      exact ih hcs

/-! ## Quotes and pieces -/

namespace Growing

/-- A quote ends a text in quotes or begins one, and nothing else does. -/
theorem isQuoted_push (g : Growing) (c : Char) :
    (g.push c).2.isQuoted = if c = '"' then !g.isQuoted else g.isQuoted := by
  have hstart : (start c).2.isQuoted = if c = '"' then true else false := by
    by_cases hquote : c = '"'
    · rw [hquote]
      rfl
    · rw [if_neg hquote]
      unfold start
      repeat' split
      all_goals simp_all
  cases g with
  | nothing => simpa [push] using hstart
  | digits rev =>
      by_cases hdigit : c.isDigit
      · have hquote : c ≠ '"' := by
          rintro rfl
          cases hdigit
        simp [push, hdigit, hquote]
      · simpa [push, hdigit] using hstart
  | word rev =>
      by_cases halphanum : c.isAlphanum
      · have hquote : c ≠ '"' := by
          rintro rfl
          cases halphanum
        simp [push, halphanum, hquote]
      · simpa [push, halphanum] using hstart
  | quoted rev =>
      by_cases hquote : c = '"'
      · simp [push, hquote]
      · simp [push, hquote]

/-- What a character completes is no quote without a partner. -/
theorem ne_unclosed_of_mem_push {g : Growing} {c : Char} {p : Piece} (hp : p ∈ (g.push c).1)
    (content : List Char) : p ≠ .unclosed content := by
  have hstart : ∀ p ∈ (start c).1, p ≠ .unclosed content := by
    unfold start
    repeat' split
    all_goals simp
  cases g with
  | nothing => exact hstart p hp
  | digits rev =>
      by_cases hdigit : c.isDigit
      · simp [push, hdigit] at hp
      · simp only [push, if_neg hdigit, List.mem_cons] at hp
        rcases hp with rfl | hp
        · exact fun heq => by cases heq
        · exact hstart p hp
  | word rev =>
      by_cases halphanum : c.isAlphanum
      · simp [push, halphanum] at hp
      · simp only [push, if_neg halphanum, List.mem_cons] at hp
        rcases hp with rfl | hp
        · exact fun heq => by cases heq
        · exact hstart p hp
  | quoted rev =>
      by_cases hquote : c = '"'
      · simp only [push, if_pos hquote, List.mem_singleton] at hp
        rw [hp]
        exact fun heq => by cases heq
      · simp [push, hquote] at hp

end Growing

/-- **The scanner is left with a quote without a partner exactly if the text ends inside quotes.** -/
theorem exists_unclosed_iff (g : Growing) (cs : List Char) :
    (∃ content, .unclosed content ∈ cutFrom g cs) ↔ endsQuoted g.isQuoted cs = true := by
  induction cs generalizing g with
  | nil =>
      rw [cutFrom, endsQuoted]
      cases g <;> simp [Growing.close]
  | cons c cs ih =>
      rw [cutFrom, endsQuoted, ← g.isQuoted_push, ← ih]
      constructor
      · rintro ⟨content, hmem⟩
        rcases List.mem_append.mp hmem with hmem | hmem
        · exact absurd rfl (Growing.ne_unclosed_of_mem_push hmem content)
        · exact ⟨content, hmem⟩
      · rintro ⟨content, hmem⟩
        exact ⟨content, List.mem_append_right _ hmem⟩

/-! ## Lexemes on both sides of a seam -/

/-- The pieces that go on for as long as they can. -/
def Piece.IsRun : Piece → Prop
  | digits _ | word _ => True
  | lparen | rparen | blank _ | newline | quoted _ | other _ | unclosed _ => False

/-- The lexemes of a text, without the end of the program. -/
def lexemesOf (cs : List Char) : List Lexeme := (cut cs).filterMap Piece.lexeme?

theorem lexemes_scan (src : String) :
    (scan src).tokens.map Token.lexeme = lexemesOf src.toList ++ [.eof] :=
  lexemes_tokensFrom 1 (cut src.toList)

variable {a b cs : List Char}

/-- **Behind a text that does not end inside quotes the scanner begins anew**, unless it would go on with
a run. -/
theorem cut_append_of_unquoted (ha : endsQuoted false a = false)
    (hb : ∀ q ∈ (cut b).head?, ¬q.IsRun) : cut (a ++ b) = cut a ++ cut b := by
  apply cut_append
  intro p hp q hq
  have hrun : ¬q.IsRun := hb q hq
  have hclosed : ∀ content, p ≠ .unclosed content := by
    rintro content rfl
    have hquoted := (exists_unclosed_iff .nothing a).mp ⟨content, List.mem_of_getLast? hp⟩
    rw [Growing.isQuoted_nothing, ha] at hquoted
    cases hquoted
  cases p with
  | unclosed content => exact absurd rfl (hclosed content)
  | digits ds =>
      cases q with
      | digits es => exact absurd trivial hrun
      | _ => trivial
  | word ds =>
      cases q with
      | digits es => exact absurd trivial hrun
      | word es => exact absurd trivial hrun
      | _ => trivial
  | _ => cases q <;> trivial

/-- **A text in quotes is one lexeme**, whatever stands before and behind it. -/
theorem lexemesOf_quoted (ha : endsQuoted false a = false) {content : List Char}
    (hcontent : '"' ∉ content) (cs : List Char) :
    lexemesOf (a ++ '"' :: (content ++ '"' :: cs))
      = lexemesOf a ++ .text (String.ofList content) :: lexemesOf cs := by
  have hpiece : cut ('"' :: (content ++ '"' :: cs)) = .quoted content :: cut cs := by
    have hstops : (Piece.quoted content).StopsAt cs := trivial
    have hfound := cutFrom_chars (p := .quoted content) hcontent hstops
    rw [Piece.chars, List.cons_append, List.append_assoc] at hfound
    exact hfound
  have hseam : cut (a ++ '"' :: (content ++ '"' :: cs)) = cut a ++ .quoted content :: cut cs := by
    rw [← hpiece]
    apply cut_append_of_unquoted ha
    intro q hq
    rw [hpiece] at hq
    obtain rfl := Option.some.inj hq
    exact id
  have hlexeme : (Piece.quoted content).lexeme? = some (.text (String.ofList content)) := rfl
  unfold lexemesOf
  rw [hseam, List.filterMap_append, List.filterMap_cons_some hlexeme]

/-! ## Blanks -/

theorem isAlphanum_of_isBlank {c : Char} (h : isBlank c = true) : c.isAlphanum = false := by
  rw [Bool.eq_false_iff]
  intro halphanum
  -- letters and digits lie between the first digit and the last small letter, and no blank does
  have hrange : '0'.toNat ≤ c.toNat ∧ c.toNat ≤ 'z'.toNat := by
    rcases Bool.or_eq_true_iff.mp halphanum with hletter | hdigit
    · rcases Bool.or_eq_true_iff.mp hletter with hupper | hlower
      · obtain ⟨hfirst, hlast⟩ := of_decide_eq_true hupper
        exact ⟨Nat.le_trans (by decide) hfirst, Nat.le_trans hlast (by decide)⟩
      · obtain ⟨hfirst, hlast⟩ := Bool.and_eq_true_iff.mp hlower
        have hle : 'a'.toNat ≤ c.toNat := of_decide_eq_true hfirst
        exact ⟨Nat.le_trans (by decide) hle, of_decide_eq_true hlast⟩
    · obtain ⟨hfirst, hlast⟩ := Char.isDigit_iff_toNat.mp hdigit
      exact ⟨hfirst, Nat.le_trans hlast (by decide)⟩
  have hzero : '0'.toNat = 48 := rfl
  have hz : 'z'.toNat = 122 := rfl
  simp only [isBlank, inRanges, blankRanges, List.any_cons, List.any_nil, Bool.or_false,
    Bool.or_eq_true, Bool.and_eq_true, decide_eq_true_eq] at h
  omega

/-- A blank is neither a parenthesis nor a quote. -/
theorem ne_of_isBlank {c d : Char} (h : isBlank c = true) (hd : isBlank d = false) : c ≠ d := by
  rintro rfl
  rw [h] at hd
  cases hd

/-- **Blanks do not count**, inside quotes or outside. -/
theorem balanceFrom_blanks {w : List Char} (hw : ∀ c ∈ w, isBlank c = true) (quoted : Bool)
    (cs : List Char) : balanceFrom quoted (w ++ cs) = balanceFrom quoted cs := by
  induction w with
  | nil => rfl
  | cons c w ih =>
      have hc : isBlank c = true := hw c List.mem_cons_self
      have hrest := ih fun d hd => hw d (List.mem_cons_of_mem c hd)
      rw [List.cons_append, balanceFrom, if_neg (ne_of_isBlank hc (by decide)),
        if_neg (ne_of_isBlank hc (by decide)), if_neg (ne_of_isBlank hc (by decide)), ← hrest]
      cases quoted <;> rfl

/-- Outside quotes a blank is a piece by itself, which has no lexeme and is no run. -/
theorem exists_piece_of_isBlank {c : Char} (h : isBlank c = true) :
    ∃ p : Piece, (∀ cs, cut (c :: cs) = p :: cut cs) ∧ p.lexeme? = none ∧ ¬p.IsRun := by
  by_cases hsep : isSeparator c
  · refine ⟨.blank c, fun cs => ?_, rfl, id⟩
    exact cutFrom_chars (p := .blank c) hsep trivial
  · by_cases hnewline : c = '\n'
    · rw [hnewline]
      refine ⟨.newline, fun cs => ?_, rfl, id⟩
      exact cutFrom_chars (p := .newline) trivial trivial
    · refine ⟨.other c, fun cs => ?_, rfl, id⟩
      obtain ⟨halpha, hdigit⟩ := Bool.or_eq_false_iff.mp (isAlphanum_of_isBlank h)
      have hother : Piece.IsOther c :=
        ⟨ne_of_isBlank h (by decide), ne_of_isBlank h (by decide), hsep, hnewline,
          ne_of_isBlank h (by decide), by simp [hdigit], by simp [halpha]⟩
      exact cutFrom_chars (p := .other c) hother trivial

/-- Outside quotes blanks have no lexemes. -/
theorem lexemesOf_blanks {w : List Char} (hw : ∀ c ∈ w, isBlank c = true) (cs : List Char) :
    lexemesOf (w ++ cs) = lexemesOf cs := by
  induction w with
  | nil => rfl
  | cons c w ih =>
      obtain ⟨p, hcut, hlexeme, -⟩ := exists_piece_of_isBlank (hw c List.mem_cons_self)
      have hrest := ih fun d hd => hw d (List.mem_cons_of_mem c hd)
      rw [← hrest, lexemesOf, List.cons_append, hcut, List.filterMap_cons_none hlexeme]
      rfl

/-- Behind a text that does not end inside quotes a blank separates lexemes. -/
theorem lexemesOf_append_blank (ha : endsQuoted false a = false) {c : Char} (hc : isBlank c = true)
    (cs : List Char) : lexemesOf (a ++ c :: cs) = lexemesOf a ++ lexemesOf cs := by
  obtain ⟨p, hcut, hlexeme, hrun⟩ := exists_piece_of_isBlank hc
  have hseam : cut (a ++ c :: cs) = cut a ++ cut (c :: cs) := by
    apply cut_append_of_unquoted ha
    intro q hq
    rw [hcut] at hq
    obtain rfl := Option.some.inj hq
    exact hrun
  rw [lexemesOf, hseam, hcut, List.filterMap_append, List.filterMap_cons_none hlexeme]
  rfl

/-- A text that ends inside quotes has a last quote, before which it is not inside quotes. -/
theorem exists_last_quote (ha : endsQuoted false a = true) :
    ∃ before content, a = before ++ '"' :: content ∧ '"' ∉ content ∧
      endsQuoted false before = false := by
  have hmem : '"' ∈ a.reverse := by
    rw [List.mem_reverse]
    by_contra hmem
    rw [endsQuoted_of_not_mem hmem] at ha
    cases ha
  obtain ⟨content, before, hsplit, hcontent⟩ := List.eq_append_cons_of_mem hmem
  have ha' : a = before.reverse ++ '"' :: content.reverse := by
    rw [← List.reverse_reverse a, hsplit]
    simp
  have hnot : '"' ∉ content.reverse := by
    rw [List.mem_reverse]
    exact hcontent
  refine ⟨before.reverse, content.reverse, ha', hnot, ?_⟩
  rw [ha', endsQuoted_append, endsQuoted, if_pos rfl, endsQuoted_of_not_mem hnot] at ha
  simpa using ha

/-- **Blanks at the end of a line belong to the program exactly if the line ends inside quotes.** Without
them the lexemes are the same if the line does not, and if there are none. Otherwise the text in quotes is
another, provided that it is closed at all. -/
theorem lexemesOf_blanks_iff {w r : List Char} (hw : ∀ c ∈ w, isBlank c = true)
    (hclosed : endsQuoted false a = true → '"' ∈ r) :
    lexemesOf (a ++ '\n' :: r) = lexemesOf (a ++ (w ++ '\n' :: r)) ↔
      endsQuoted false a = false ∨ w = [] := by
  have hnewline : isBlank '\n' = true := by decide
  constructor
  · intro hlexemes
    cases ha : endsQuoted false a with
    | false => exact .inl rfl
    | true =>
        obtain ⟨before, content, rfl, hcontent, hbefore⟩ := exists_last_quote ha
        obtain ⟨inside, rest, rfl, hinside⟩ := List.eq_append_cons_of_mem (hclosed ha)
        have hquote : '"' ∉ w := fun hmem => ne_of_isBlank (hw '"' hmem) (by decide) rfl
        have hnear : '"' ∉ content ++ '\n' :: inside := by simp [hcontent, hinside]
        have hfar : '"' ∉ content ++ (w ++ '\n' :: inside) := by simp [hcontent, hquote, hinside]
        have hleft := lexemesOf_quoted hbefore hnear rest
        have hright := lexemesOf_quoted hbefore hfar rest
        simp only [List.append_assoc, List.cons_append] at hleft hright hlexemes
        rw [hleft, hright] at hlexemes
        have htext := (List.cons.inj (List.append_cancel_left hlexemes)).1
        have hcontents := congrArg List.length (String.ofList_injective (Lexeme.text.inj htext))
        simp only [List.length_append, List.length_cons] at hcontents
        exact .inr (List.length_eq_zero_iff.mp (by omega))
  · rintro (ha | rfl)
    · rw [lexemesOf_append_blank ha hnewline]
      cases w with
      | nil => exact (lexemesOf_append_blank ha hnewline r).symm
      | cons c w =>
          have hrest : ∀ d ∈ w, isBlank d = true := fun d hd => hw d (List.mem_cons_of_mem c hd)
          have hafter : lexemesOf ('\n' :: r) = lexemesOf r :=
            lexemesOf_blanks (w := ['\n']) (by simpa using hnewline) r
          rw [List.cons_append, lexemesOf_append_blank ha (hw c List.mem_cons_self),
            lexemesOf_blanks hrest, hafter]
    · rfl

end FormLang
