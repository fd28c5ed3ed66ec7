import FormLang.Proofs.Session
import FormLang.Proofs.Source.Append
import FormLang.Proofs.Token.Balance
import FormLang.Proofs.Tree.Bracketed
import FormLang.Proofs.Tree.Operands

/-!
# `FormLang.Proofs.Script` — one script is one session

Program texts that are each one form can be put into one pair of parentheses, and the text that comes of
it does what the texts do one after the other. This goes through all stages. The scanner does not go on
from one form into the next, since the last token of a form is a parenthesis and behind it there are
spaces at most (`cut_forms`). The reader takes each form one level further down, where it still fits
(`ofSource_script`). The list that is read begins with a list and not with a name, so that it is no
command, and its elements are evaluated one after the other (`evaluateAll_run`).

## Contents
- `IsForm`: a text that is one form; `IsForm.ofSource`: its tree.
- `Session.script`: texts in one pair of parentheses.
- `cut_forms`, `cut_script`, `ofSource_script`: the pieces and the tree of a script.
- `evaluateAll_run`: the trees of texts evaluated in order are the texts run in order.
- `Session.run_script`: a script is a session.
-/

namespace FormLang

open FormLang.Tree

/-! ## Forms -/

/-- A text with nothing to report about it, whose tokens go from a parenthesis to the one that closes
it, with at most `levels` parentheses open at a time. -/
structure IsForm (levels : Nat) (src : String) : Prop where
  silent : (scan src).diagnostics = []
  bracketed : Bracketed levels (untilEnd (scan src).tokens)

instance (levels : Nat) (src : String) : Decidable (IsForm levels src) :=
  decidable_of_iff ((scan src).diagnostics = [] ∧ Bracketed levels (untilEnd (scan src).tokens))
    ⟨fun h => ⟨h.1, h.2⟩, fun h => ⟨h.1, h.2⟩⟩

variable {levels : Nat} {src : String}

/-- There is nothing to report about the pieces of a form. -/
theorem IsForm.fault? (h : IsForm levels src) :
    ∀ p ∈ cut src.toList, ∀ line, p.fault? line = none :=
  fault?_of_faultsFrom h.silent

/-- The pieces of a form have the lexemes of a list. -/
theorem IsForm.exists_list (h : IsForm levels src) :
    ∃ us, (cut src.toList).filterMap Piece.lexeme? = (list us).lexemes ∧
      (list us).Leaves IsAtom ∧ (list us).depth ≤ levels := by
  rw [← lexemes_untilEnd_scan]
  exact h.bracketed.exists_list (not_eof_of_prefix_untilEnd List.prefix_rfl)

/-- **A form is read as a list**, the lexemes of which are those of its pieces. -/
theorem IsForm.ofSource (h : IsForm levels src) (hlevels : levels ≤ maxDepth) :
    ∃ us, Tree.ofSource src = ⟨list us, []⟩ ∧
      (cut src.toList).filterMap Piece.lexeme? = (list us).lexemes ∧
      (list us).Leaves IsAtom ∧ (list us).depth ≤ levels := by
  obtain ⟨us, hlexemes, hatoms, hdepth⟩ := h.exists_list
  have hread := ofSource_of_lexemes hlexemes h.fault? hatoms (Nat.le_trans hdepth hlevels)
  exact ⟨us, hread, hlexemes, hatoms, hdepth⟩

/-! ## Forms side by side -/

/-- A closing parenthesis, and a piece that gives neither a token nor a report, end by themselves. -/
theorem Piece.mayPrecede_of_silent {p : Piece} (hlexeme : p.lexeme? = none ∨ p.lexeme? = some .rparen)
    (hfault : p.fault? 1 = none) (q : Piece) : p.MayPrecede q := by
  cases p with
  | digits ds =>
      rw [lexeme?_digits, Option.map_eq_none_iff, Option.map_eq_some_iff] at hlexeme
      rcases hlexeme with hnone | ⟨n, -, hn⟩
      · rw [Piece.fault?, hnone] at hfault
        cases hfault
      · cases hn
  | word cs => rcases hlexeme with hlexeme | hlexeme <;> cases hlexeme
  | unclosed content => cases hfault
  | _ => cases q <;> trivial

/-- **No piece goes on behind a form.** -/
theorem IsForm.mayPrecede (h : IsForm levels src) {p : Piece} (hp : p ∈ (cut src.toList).getLast?)
    (q : Piece) : p.MayPrecede q := by
  obtain ⟨l, hl⟩ := List.getLast?_eq_some_iff.mp hp
  have hfault : p.fault? 1 = none := h.fault? p (by rw [hl]; simp) 1
  apply Piece.mayPrecede_of_silent _ hfault
  cases hx : p.lexeme? with
  | none => exact .inl rfl
  | some x =>
      right
      obtain ⟨us, hlexemes, -⟩ := h.exists_list
      rw [hl, List.filterMap_append, List.filterMap_cons_some hx, lexemes, ← List.cons_append]
        at hlexemes
      obtain ⟨-, hlast⟩ := List.append_inj' hlexemes rfl
      rw [(List.cons.inj hlast).1]

namespace Session

/-- Program texts in one pair of parentheses, each with a text before it. -/
def script (items : List (String × String)) : String :=
  "(" ++ String.join (items.map fun m => m.1 ++ m.2) ++ ")"

/-- Each text is a form, with at most `levels` parentheses open at a time, and only spaces stand
before it. -/
def AreForms (levels : Nat) (items : List (String × String)) : Prop :=
  ∀ m ∈ items, (∀ c ∈ m.1.toList, IsSpace c) ∧ IsForm levels m.2

instance (levels : Nat) (items : List (String × String)) : Decidable (AreForms levels items) :=
  inferInstanceAs (Decidable (∀ m ∈ items, _))

variable {items : List (String × String)}

/-- The pieces of forms with spaces before each. -/
def formPieces (items : List (String × String)) : List Piece :=
  items.flatMap fun m => m.1.toList.map Piece.space ++ cut m.2.toList

theorem formPieces_cons (m : String × String) (items : List (String × String)) :
    formPieces (m :: items)
      = m.1.toList.map Piece.space ++ (cut m.2.toList ++ formPieces items) :=
  List.append_assoc ..

/-- **Forms side by side are cut one by one**, whatever follows. -/
theorem cut_forms (h : AreForms levels items) (cs : List Char) :
    cut (items.flatMap (fun m => m.1.toList ++ m.2.toList) ++ cs) = formPieces items ++ cut cs := by
  induction items with
  | nil => rfl
  | cons m items ih =>
      obtain ⟨hspaces, hform⟩ := h m List.mem_cons_self
      have hrest := ih fun n hn => h n (List.mem_cons_of_mem m hn)
      have hseam := cut_append (a := m.2.toList)
        (b := items.flatMap (fun m => m.1.toList ++ m.2.toList) ++ cs)
        fun p hp q _ => hform.mayPrecede hp q
      rw [List.flatMap_cons, List.append_assoc, List.append_assoc, cut_spaces hspaces, hseam, hrest,
        formPieces_cons, List.append_assoc, List.append_assoc]

theorem toList_script (items : List (String × String)) :
    (script items).toList
      = '(' :: (items.flatMap (fun m => m.1.toList ++ m.2.toList) ++ [')']) := by
  simp [script, List.flatMap_map]

/-- The pieces of a script are those of its forms between two parentheses. -/
theorem cut_script (h : AreForms levels items) :
    cut (script items).toList = .lparen :: (formPieces items ++ [.rparen]) := by
  rw [toList_script]
  show cut (Piece.lparen.chars ++ _) = _
  rw [cut, cutFrom_chars (p := .lparen) trivial trivial]
  exact congrArg (Piece.lparen :: ·) (cut_forms h [')'])

/-! ## The tree of a script -/

/-- The trees of program texts. -/
def formTrees (items : List (String × String)) : List Tree :=
  items.map fun m => (Tree.ofSource m.2).tree

theorem lexemes_formPieces (h : AreForms levels items) (hlevels : levels ≤ maxDepth) :
    (formPieces items).filterMap Piece.lexeme? = lexemesAll (formTrees items) := by
  induction items with
  | nil => rfl
  | cons m items ih =>
      obtain ⟨us, hread, hlexemes, -⟩ := (h m List.mem_cons_self).2.ofSource hlevels
      have hspaces : (m.1.toList.map Piece.space).filterMap Piece.lexeme? = [] := by
        rw [List.filterMap_map, List.filterMap_eq_nil_iff]
        exact fun c _ => (Piece.space_silent c).1
      have hrest := ih fun n hn => h n (List.mem_cons_of_mem m hn)
      rw [formPieces_cons, List.filterMap_append, List.filterMap_append, hspaces, hlexemes, hrest]
      show _ = (Tree.ofSource m.2).tree.lexemes ++ lexemesAll (formTrees items)
      rw [hread]
      rfl

theorem fault?_formPieces (h : AreForms levels items) :
    ∀ p ∈ formPieces items, ∀ line, p.fault? line = none := by
  intro p hp line
  obtain ⟨m, hm, hp⟩ := List.mem_flatMap.mp hp
  rcases List.mem_append.mp hp with hp | hp
  · obtain ⟨c, -, rfl⟩ := List.mem_map.mp hp
    exact (Piece.space_silent c).2 line
  · exact (h m hm).2.fault? p hp line

/-- **A script is read as the list of the trees of its forms**, which stand one level further down. -/
theorem ofSource_script (h : AreForms levels items) (hlevels : levels + 1 ≤ maxDepth) :
    Tree.ofSource (script items) = ⟨list (formTrees items), []⟩ := by
  have hfits : levels ≤ maxDepth := Nat.le_of_succ_le hlevels
  have htrees : ∀ t ∈ formTrees items, t.Leaves IsAtom ∧ t.depth ≤ levels := by
    intro t ht
    obtain ⟨m, hm, rfl⟩ := List.mem_map.mp ht
    obtain ⟨us, hread, -, hatoms, hdepth⟩ := (h m hm).2.ofSource hfits
    rw [hread]
    exact ⟨hatoms, hdepth⟩
  apply ofSource_of_lexemes
  · have hlparen : Piece.lparen.lexeme? = some .lparen := rfl
    rw [cut_script h, List.filterMap_cons_some hlparen, List.filterMap_append,
      lexemes_formPieces h hfits, lexemes]
    rfl
  · intro p hp line
    rw [cut_script h, List.mem_cons, List.mem_append, List.mem_singleton] at hp
    rcases hp with rfl | hp | rfl
    · rfl
    · exact fault?_formPieces h p hp line
    · rfl
  · exact leaves_list.mpr fun t ht => (htrees t ht).1
  · have hdepth : (list (formTrees items)).depth ≤ levels + 1 :=
      depth_list_le_iff.mpr fun t ht => (htrees t ht).2
    exact Nat.le_trans hdepth hlevels

/-! ## Running a script -/

variable {options : Options}

/-- Without dumps, a text that there is nothing to report about does what its tree does. -/
theorem run_silent (htokens : options.showTokens = false) (htree : options.showTree = false)
    {t : Tree} (h : Tree.ofSource src = ⟨t, []⟩) : run options src = t.evaluate := by
  have hdiagnostics : (scan src).diagnostics ++ (Tree.parse (scan src).tokens).diagnostics = [] :=
    congrArg Parse.diagnostics h
  obtain ⟨hscan, hparse⟩ := List.append_eq_nil_iff.mp hdiagnostics
  rw [run_eq, hscan, hparse, htokens, htree, h]
  rfl

/-- **Trees evaluated in order are texts run in order**, if each text does what its tree does. Every one
of them has a value, whatever the variables are bound to. -/
theorem evaluateAll_run {srcs : List String}
    (h : ∀ src ∈ srcs, run options src = (Tree.ofSource src).tree.evaluate) (e : Env) :
    ∃ vs, results options e srcs = vs.map .ok ∧
      (evaluateAll (srcs.map fun src => (Tree.ofSource src).tree)).run e
        = ⟨.ok vs, after options e srcs, reported options e srcs⟩ := by
  induction srcs generalizing e with
  | nil => exact ⟨[], rfl, rfl⟩
  | cons src srcs ih =>
      have hreturns := stays_evaluate Value.isDomain_all (Tree.ofSource_ordinary src)
      obtain ⟨v, e', events, hrun, -⟩ := hreturns e fun _ _ _ => trivial
      obtain ⟨vs, hresults, hrest⟩ := ih (fun s hs => h s (List.mem_cons_of_mem src hs)) e'
      have hsrc : (run options src).run e = ⟨.ok v, e', events⟩ := by
        rw [h src List.mem_cons_self, hrun]
      refine ⟨v :: vs, ?_, ?_⟩
      · rw [results, hsrc, hresults]
        rfl
      · rw [List.map_cons, after, reported, hsrc]
        exact evaluateAll_cons_run hrun hrest

/-- A list that does not begin with a name is evaluated element by element. -/
theorem evaluate_list {ts : List Tree} (h : ∀ t ∈ ts, ∀ s, t ≠ .name s) :
    (list ts).evaluate = Value.list <$> evaluateAll ts := by
  rw [evaluate]
  cases ts with
  | nil => rfl
  | cons t ts => rw [evaluateForm_of_not_name (h t List.mem_cons_self)]

/-- **One script is one session.** Program texts each of which is a form, with at most 99 lists inside
one another, can be put into one pair of parentheses with any spaces before each. Run from whatever
variables, with nothing shown besides, this one text has as its value the list of the values that the
texts have one after the other. It leaves the same variables and reports the same events in the same
order. -/
theorem run_script (htokens : options.showTokens = false) (htree : options.showTree = false)
    (hitems : AreForms 99 items) (e : Env) :
    ∃ vs, results options e (items.map Prod.snd) = vs.map .ok ∧
      (run options (script items)).run e
        = ⟨.ok (.list vs), after options e (items.map Prod.snd),
            reported options e (items.map Prod.snd)⟩ := by
  have hread : ∀ m ∈ items, ∃ us, Tree.ofSource m.2 = ⟨list us, []⟩ := by
    intro m hm
    obtain ⟨us, hus, -⟩ := (hitems m hm).2.ofSource (by decide)
    exact ⟨us, hus⟩
  have hsrcs : ∀ src ∈ items.map Prod.snd, run options src = (Tree.ofSource src).tree.evaluate := by
    intro src hsrc
    obtain ⟨m, hm, rfl⟩ := List.mem_map.mp hsrc
    obtain ⟨us, hus⟩ := hread m hm
    rw [run_silent htokens htree hus, hus]
  have hlists : ∀ t ∈ formTrees items, ∀ s, t ≠ .name s := by
    intro t ht s
    obtain ⟨m, hm, rfl⟩ := List.mem_map.mp ht
    obtain ⟨us, hus⟩ := hread m hm
    rw [hus]
    exact fun heq => by cases heq
  obtain ⟨vs, hresults, hrun⟩ := evaluateAll_run hsrcs e
  rw [List.map_map] at hrun
  have htrees : (evaluateAll (formTrees items)).run e
      = ⟨.ok vs, after options e (items.map Prod.snd), reported options e (items.map Prod.snd)⟩ :=
    hrun
  refine ⟨vs, hresults, ?_⟩
  rw [run_silent htokens htree (ofSource_script hitems (by decide)), evaluate_list hlists,
    Action.map_run, htrees]
  rfl

/-- A form that binds a variable to a parenthesis, one in which lists are nested, and one that reads the
variable; spaces of all kinds before them, or none. -/
def threeForms : List (String × String) :=
  [("", "(set x \"(\")"),
    ("", "((((((7))))))"),
    (" \r\n\t", "(print (get x)\n(get host))")]

/-- The variables may hold what no program makes. -/
theorem run_script_threeForms :
    ({} : Options).showTokens = false ∧ ({} : Options).showTree = false ∧ AreForms 99 threeForms ∧
    ∃ vs, results {} (Env.empty.bind "host" .absent) (threeForms.map Prod.snd) = vs.map .ok ∧
      (run {} (script threeForms)).run (Env.empty.bind "host" .absent)
        = ⟨.ok (.list vs), after {} (Env.empty.bind "host" .absent) (threeForms.map Prod.snd),
            reported {} (Env.empty.bind "host" .absent) (threeForms.map Prod.snd)⟩ :=
  have hforms : AreForms 99 threeForms := by decide +kernel
  ⟨rfl, rfl, hforms, run_script rfl rfl hforms (Env.empty.bind "host" .absent)⟩

end Session
end FormLang
