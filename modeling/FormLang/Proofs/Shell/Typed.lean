import FormLang.Proofs.Shell.Segments
import FormLang.Proofs.Token.Quotes

/-!
# `FormLang.Proofs.Shell.Typed` — a form typed over several lines, against the same form as one text

The first line of a form is stripped before it is known to be one; the lines after it are taken as they
are. What is stripped from a line that begins with a parenthesis are the blanks at its end. They do not
count in the balance of the form, so that it is complete after the same line. They have no lexemes either,
unless the line ends inside quotes: then they belong to a text, and the program gets another text than was
typed.

## Contents
- `exists_blanks_of_strip`: what is stripped from a line.
- `toList_joinLines`, `balance_joinLines_strip`: joined lines with the first of them stripped.
- `Completes.strip`: the same lines complete the form.
- `lexemes_joinLines_strip_iff`: when the blanks at the end of the first line can be missed.
- `Session.run_env_congr`: texts with the same lexemes bind the same variables.
- `Shell.handed_typed_iff`, `Shell.not_handed_typed`: which forms reach the session as they were typed,
  and that not all do.
-/

namespace FormLang

open Text

/-! ## The first line of a form -/

theorem toList_strip (line : String) : (strip line).toList = stripChars line.toList :=
  String.toList_ofList

/-- A line that does not begin with a blank loses the blanks at its end when it is stripped. -/
theorem exists_blanks_of_strip {line : String} {c : Char} (hc : line.toList.head? = some c)
    (hblank : isBlank c = false) :
    ∃ w, line.toList = (strip line).toList ++ w ∧ ∀ d ∈ w, isBlank d = true := by
  obtain ⟨cs, hcs⟩ := List.head?_eq_some_iff.mp hc
  have hfront : line.toList.dropWhile isBlank = line.toList := by
    rw [hcs, List.dropWhile_cons_of_neg (by simp [hblank])]
  refine ⟨(line.toList.reverse.takeWhile isBlank).reverse, ?_, ?_⟩
  · rw [toList_strip, stripChars, hfront, ← List.reverse_append, List.takeWhile_append_dropWhile,
      List.reverse_reverse]
  · intro d hd
    exact List.mem_takeWhile_imp (List.mem_reverse.mp hd)

/-- The characters of joined lines. -/
theorem toList_joinLines (first : String) (more : List String) :
    (joinLines (first :: more)).toList
      = first.toList ++ more.flatMap fun line => '\n' :: line.toList := by
  induction more generalizing first with
  | nil => simp
  | cons line more ih =>
      rw [joinLines_cons_cons, ih]
      simp

/-- A line that begins with a parenthesis and is stripped is not for the shell itself. -/
theorem not_isShellLine_strip {first : String} (hopen : first.toList.head? = some '(') :
    ¬IsShellLine (strip first) := by
  obtain ⟨w, hfirst, hw⟩ := exists_blanks_of_strip hopen (by decide)
  have hhead : (strip first).toList.head? = some '(' := by
    cases hstripped : (strip first).toList with
    | nil =>
        rw [hfirst, hstripped] at hopen
        obtain ⟨cs, rfl⟩ := List.head?_eq_some_iff.mp hopen
        exact absurd (hw '(' List.mem_cons_self) (by decide)
    | cons c cs =>
        rw [hfirst, hstripped] at hopen
        exact hopen
  obtain ⟨cs, hcs⟩ := List.head?_eq_some_iff.mp hhead
  have hword : firstWord (strip first) = "" := by
    rw [firstWord, hcs]
    rfl
  rintro (hempty | hmark | hmem)
  · rw [hempty] at hhead
    cases hhead
  · rw [hhead] at hmark
    cases hmark
  · rw [hword] at hmem
    exact absurd hmem (by decide)

variable {first : String} {more : List String}

/-- **Stripping the first line of a form does not change its balance**, however many lines it has. -/
theorem balance_joinLines_strip (hopen : first.toList.head? = some '(') (lines : List String) :
    balance (joinLines (strip first :: lines)) = balance (joinLines (first :: lines)) := by
  obtain ⟨w, hfirst, hw⟩ := exists_blanks_of_strip hopen (by decide)
  unfold balance
  rw [toList_joinLines, toList_joinLines, hfirst, List.append_assoc, balanceFrom_append,
    balanceFrom_append, balanceFrom_blanks hw]

/-- The stripped line is completed by the same lines. -/
theorem Completes.strip (hopen : first.toList.head? = some '(') (h : Completes first more) :
    Completes (strip first) more where
  balanced := by
    rw [balance_joinLines_strip hopen]
    exact h.balanced
  before := by
    intro m hm hne
    rw [balance_joinLines_strip hopen]
    exact h.before m hm hne

/-- A line that ends inside quotes and begins a form that is completed later is followed by a quote. -/
theorem Completes.mem_quote (h : Completes first more) (hmore : more ≠ [])
    (hquoted : endsQuoted false first.toList = true) :
    '"' ∈ more.flatMap fun line => '\n' :: line.toList := by
  by_contra hnone
  -- otherwise all that follows is quoted, and closes none of the parentheses that are open
  have hfirst : 0 < balance first := h.before [] List.nil_prefix hmore.symm
  have hall := h.balanced
  unfold balance at hfirst hall
  rw [toList_joinLines, balanceFrom_append, hquoted, balanceFrom_quoted_of_not_mem hnone,
    Int.add_zero] at hall
  exact absurd hfirst (Int.not_lt.mpr hall)

/-! ## Lexemes -/

/-- **The lexemes of a form whose first line is stripped are those of the form as it was typed** exactly
if the first line does not end inside quotes, or has no blanks at its end. -/
theorem lexemes_joinLines_strip_iff (hopen : first.toList.head? = some '(') (hmore : more ≠ [])
    (h : Completes first more) :
    (scan (joinLines (strip first :: more))).tokens.map Token.lexeme
        = (scan (joinLines (first :: more))).tokens.map Token.lexeme ↔
      first.toList.count '"' % 2 = 0 ∨ strip first = first := by
  obtain ⟨w, hfirst, hw⟩ := exists_blanks_of_strip hopen (by decide)
  obtain ⟨line, lines, rfl⟩ := List.exists_cons_of_ne_nil hmore
  -- the blanks hold no quote, so that the line ends inside quotes with them as without
  have hquote : '"' ∉ w := fun hmem => ne_of_isBlank (hw '"' hmem) (by decide) rfl
  have hends : endsQuoted false (strip first).toList = endsQuoted false first.toList := by
    rw [hfirst, endsQuoted_append, endsQuoted_of_not_mem hquote]
  have hparity : endsQuoted false (strip first).toList = false ↔ first.toList.count '"' % 2 = 0 := by
    rw [hends, endsQuoted_eq_parity, decide_eq_false_iff_not]
    omega
  have hblanks : w = [] ↔ strip first = first := by
    constructor
    · rintro rfl
      rw [List.append_nil] at hfirst
      exact (String.toList_injective hfirst).symm
    · intro hstrip
      rw [hstrip] at hfirst
      exact List.self_eq_append_right.mp hfirst
  have hclosed : endsQuoted false (strip first).toList = true →
      '"' ∈ line.toList ++ lines.flatMap fun line => '\n' :: line.toList := by
    intro hquoted
    rw [hends] at hquoted
    have hmem := h.mem_quote hmore hquoted
    rw [List.flatMap_cons, List.cons_append] at hmem
    exact (List.mem_cons.mp hmem).resolve_left (by decide)
  have hlexemes := lexemesOf_blanks_iff hw hclosed
  rw [hparity, hblanks] at hlexemes
  have hlines : first.toList ++ '\n' :: (line.toList ++ lines.flatMap fun line => '\n' :: line.toList)
      = (strip first).toList
        ++ (w ++ '\n' :: (line.toList ++ lines.flatMap fun line => '\n' :: line.toList)) := by
    rw [← List.append_assoc, ← hfirst]
  rw [← hlexemes, lexemes_scan, lexemes_scan, List.append_left_inj, toList_joinLines,
    toList_joinLines, List.flatMap_cons, List.cons_append, hlines]

/-! ## What reaches the session -/

/-- **A run binds the same variables for texts with the same lexemes.** -/
theorem Session.run_env_congr {src src' : String}
    (h : (scan src).tokens.map Token.lexeme = (scan src').tokens.map Token.lexeme)
    (options : Options) (e : Env) :
    ((Session.run options src).run e).env = ((Session.run options src').run e).env := by
  have htree : (Tree.ofSource src).tree = (Tree.ofSource src').tree := by
    show (Tree.parse (scan src).tokens).tree = (Tree.parse (scan src').tokens).tree
    rw [Tree.parse_congr h]
  rw [Session.run_env, Session.run_env, htree]

namespace Shell

/-- **A form that is typed over several lines reaches the session as it was typed**, and binds what it
binds as one text, unless its first line ends with blanks inside quotes. The shell then runs one text
all the same, but that text has other lexemes than what was typed. -/
theorem handed_typed_iff (hopen : first.toList.head? = some '(') (hmore : more ≠ [])
    (h : Completes first more) :
    ∃ src, ({} : Entry).handed ((first :: more).map .line) = [src] ∧
      ((scan src).tokens.map Token.lexeme
          = (scan (joinLines (first :: more))).tokens.map Token.lexeme ↔
        first.toList.count '"' % 2 = 0 ∨ strip first = first) ∧
      (first.toList.count '"' % 2 = 0 ∨ strip first = first → ∀ options e,
        (course options ⟨{}, e⟩ ((first :: more).map .line)).1.env
          = ((Session.run options (joinLines (first :: more))).run e).env) := by
  have hline : ¬IsShellLine (strip first) := not_isShellLine_strip hopen
  have htext : ({} : Entry).text? first = some (strip first) := by
    rw [Entry.text?_fresh, if_neg hline]
  have hhanded : ({} : Entry).handed ((first :: more).map .line)
      = [joinLines (strip first :: more)] := by
    have hall := Entry.handed_of_completes htext (h.strip hopen) []
    rw [List.append_nil] at hall
    exact hall
  have hlexemes := lexemes_joinLines_strip_iff hopen hmore h
  refine ⟨joinLines (strip first :: more), hhanded, hlexemes, ?_⟩
  intro hkept options e
  rw [course_eq, hhanded]
  exact Session.run_env_congr (hlexemes.mpr hkept) options e

/-- A first line with a blank at its end, and a text that goes over two lines. -/
theorem handed_typed_iff_secondLine :
    "(set x ".toList.head? = some '(' ∧ ["\"a ", " b\")"] ≠ [] ∧
    Completes "(set x " ["\"a ", " b\")"] ∧
    ∃ src, ({} : Entry).handed (["(set x ", "\"a ", " b\")"].map .line) = [src] ∧
      ((scan src).tokens.map Token.lexeme
          = (scan (joinLines ["(set x ", "\"a ", " b\")"])).tokens.map Token.lexeme ↔
        "(set x ".toList.count '"' % 2 = 0 ∨ strip "(set x " = "(set x ") ∧
      ("(set x ".toList.count '"' % 2 = 0 ∨ strip "(set x " = "(set x " → ∀ options e,
        (course options ⟨{}, e⟩ (["(set x ", "\"a ", " b\")"].map .line)).1.env
          = ((Session.run options (joinLines ["(set x ", "\"a ", " b\")"])).run e).env) :=
  have hcompletes : Completes "(set x " ["\"a ", " b\")"] := by decide +kernel
  ⟨rfl, List.cons_ne_nil _ _, hcompletes,
    handed_typed_iff rfl (List.cons_ne_nil _ _) hcompletes⟩

/-- **Not every form reaches the session as it was typed.** A blank at the end of the first line that
stands inside quotes is lost, from the lexemes and from the variable that is set to the text. -/
theorem not_handed_typed :
    ¬∀ (first : String) (more : List String), (∀ line ∈ first :: more, '\n' ∉ line.toList) →
      first.toList.head? = some '(' → more ≠ [] → Completes first more →
      (({} : Entry).handed ((first :: more).map .line)).map
          (fun src => (scan src).tokens.map Token.lexeme)
        = [(scan (joinLines (first :: more))).tokens.map Token.lexeme] ∧
      (course {} {} ((first :: more).map .line)).1.env
        = ((Session.run {} (joinLines (first :: more))).run {}).env := by
  intro hall
  obtain ⟨-, henv⟩ := hall "(set x \"a " ["b\")"] (by decide +kernel) rfl (List.cons_ne_nil _ _)
    (by decide +kernel)
  have htyped : (((Session.run {} (joinLines ["(set x \"a ", "b\")"])).run {}).env.get? "x")
      = some (.text "a \nb") := by decide +kernel
  have hshell : (course {} {} (["(set x \"a ", "b\")"].map .line)).1.env.get? "x"
      = some (.text "a\nb") := by decide +kernel
  rw [henv, htyped] at hshell
  exact absurd hshell (by decide)

end Shell
end FormLang
