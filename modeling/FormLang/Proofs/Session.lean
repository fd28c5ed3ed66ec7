import FormLang.Proofs.Tree.Evaluate
import FormLang.Proofs.Tree.Source

/-!
# `FormLang.Proofs.Session` — no program fails

Whatever text is run, it ends with a value. The tokens and the tree of a text can always be written
out, since all their numbers have been read from digits; the tree can be evaluated; and values of the
language are all that comes of it, which keeps the variables fit for the next text. What is shown
besides the program's own output has no influence on the rest.

## Contents
- `exists_dumps`, `exists_render`: tokens and trees can be written out.
- `run_run`: the outcome of a run, stage by stage; `run_quiet`: without what is shown besides;
  `run_result`, `run_env`: as far as it has a result and binds variables.
- `Session.after`, `Session.reported`, `Session.results`: the variables after a sequence of texts, its
  events and its results.
- `Session.run_returns`: every run of a sequence returns.
-/

namespace FormLang

/-! ## Tokens and trees can be written out -/

/-- A function that has a result for each element has the results for the list. -/
theorem exists_mapM {α β : Type} {f : α → Except Failure β} {xs : List α}
    (h : ∀ x ∈ xs, ∃ y, f x = .ok y) : ∃ ys, xs.mapM f = .ok ys := by
  induction xs with
  | nil => exact ⟨[], rfl⟩
  | cons x xs ih =>
      obtain ⟨y, hy⟩ := h x List.mem_cons_self
      obtain ⟨ys, hys⟩ := ih fun z hz => h z (List.mem_cons_of_mem x hz)
      refine ⟨y :: ys, ?_⟩
      rw [List.mapM_cons, hy, hys]
      rfl

/-- A token of a text can be written out. -/
theorem Token.exists_dump {t : Token} (ht : t.lexeme.IsWritten) : ∃ s, t.dump = .ok s := by
  obtain ⟨x, line⟩ := t
  cases x with
  | number n =>
      have hliteral : (Value.int n).literal? = some (Numeral.decimal n) := by
        rw [Value.literal?, Number.literal?]
        unfold Numeral.decimal?
        rw [if_pos ht.2]
      simp only [dump, describe, Lexeme.payload?, hliteral]
      exact ⟨_, rfl⟩
  | _ => exact ⟨_, rfl⟩

namespace Tree

theorem renderAll_eq_mapM (ts : List Tree) : renderAll ts = ts.mapM render := by
  induction ts with
  | nil => rfl
  | cons t ts ih => rw [renderAll, ih, List.mapM_cons]

/-- A tree without foreign parts and numbers of too many digits can be written out. -/
theorem exists_render {t : Tree} (ht : t.Leaves IsOrdinary) : ∃ s, t.render = .ok s := by
  induction t with
  | number n =>
      rw [render, Numeral.digitsOrFail_of_lt ht]
      exact ⟨_, rfl⟩
  | list ts ih =>
      rw [leaves_list] at ht
      obtain ⟨parts, hparts⟩ := exists_mapM fun t hmem => ih t hmem (ht t hmem)
      rw [render, renderAll_eq_mapM, hparts]
      exact ⟨_, rfl⟩
  | foreign v => exact absurd ht id
  | _ => exact ⟨_, rfl⟩

theorem IsWritten.isOrdinary {t : Tree} (h : t.IsWritten) : t.IsOrdinary := by
  cases t with
  | number n => exact h.2
  | text s => trivial
  | name s => trivial
  | list ts => exact absurd h id
  | error message => exact absurd h id
  | foreign v => exact absurd h id

/-- **The tree of a program text can be written out and evaluated.** -/
theorem ofSource_ordinary (src : String) : (Tree.ofSource src).tree.Leaves IsOrdinary := by
  rcases ofSource_written src with hunterminated | ⟨us, htree, hus⟩
  · rw [hunterminated]
    trivial
  · rw [htree, leaves_list]
    intro u hu
    refine (hus u hu).1.imp ?_
    rintro v (hwritten | rfl)
    · exact hwritten.isOrdinary
    · trivial

end Tree

/-! ## One run -/

/-- The options with nothing shown before a program runs. -/
def Options.quiet (options : Options) : Options :=
  { options with showTokens := false, showTree := false }

namespace Session

/-- The stages of a run. -/
theorem run_eq (options : Options) (src : String) :
    run options src =
      Action.complainAll (scan src).diagnostics >>= fun _ =>
      (if options.showTokens then logTokens (scan src).tokens else pure ()) >>= fun _ =>
      Action.complainAll (Tree.parse (scan src).tokens).diagnostics >>= fun _ =>
      (if options.showTree then logTree (Tree.ofSource src).tree else pure ()) >>= fun _ =>
      (Tree.ofSource src).tree.evaluate := by
  rw [run]
  cases options.showTokens <;> cases options.showTree <;> rfl

/-- A stage that can be left out, and reports something otherwise. -/
theorem optional_run {x : Action Unit} {e : Env} {events : List Event}
    (h : x.run e = ⟨.ok (), e, events⟩) (b : Bool) :
    (if b then x else pure ()).run e = ⟨.ok (), e, if b then events else []⟩ := by
  cases b with
  | true => exact h
  | false => rfl

/-- **The outcome of a run, stage by stage.** -/
theorem run_run (options : Options) {src : String} {dumps : List String} {text : String}
    (hdumps : (scan src).tokens.mapM Token.dump = .ok dumps)
    (htext : (Tree.ofSource src).tree.render = .ok text) (e : Env) :
    (run options src).run e =
      ⟨((Tree.ofSource src).tree.evaluate.run e).result,
        ((Tree.ofSource src).tree.evaluate.run e).env,
        (scan src).diagnostics.map .error
          ++ ((if options.showTokens then [.log (.list (dumps.map .text))] else [])
          ++ ((Tree.parse (scan src).tokens).diagnostics.map .error
          ++ ((if options.showTree then [.log (.text text)] else [])
          ++ ((Tree.ofSource src).tree.evaluate.run e).events)))⟩ := by
  have htokens : (logTokens (scan src).tokens).run e
      = ⟨.ok (), e, [.log (.list (dumps.map .text))]⟩ := by
    rw [logTokens, hdumps]
    rfl
  have htree : (logTree (Tree.ofSource src).tree).run e = ⟨.ok (), e, [.log (.text text)]⟩ := by
    rw [logTree, htext]
    rfl
  rw [run_eq, Action.bind_run_ok (Action.complainAll_run _ e),
    Action.bind_run_ok (optional_run htokens options.showTokens),
    Action.bind_run_ok (Action.complainAll_run _ e),
    Action.bind_run_ok (optional_run htree options.showTree)]

/-- With nothing shown a run reports what there is to report about its text, and then does what its tree
does. -/
theorem run_quiet {options : Options} (htokens : options.showTokens = false)
    (htree : options.showTree = false) (src : String) (e : Env) :
    (run options src).run e =
      ⟨((Tree.ofSource src).tree.evaluate.run e).result,
        ((Tree.ofSource src).tree.evaluate.run e).env,
        (Tree.ofSource src).diagnostics.map .error
          ++ ((Tree.ofSource src).tree.evaluate.run e).events⟩ := by
  have hoff : ∀ x : Action Unit, (if false = true then x else pure ()) = pure () := fun _ => rfl
  rw [run_eq, htokens, htree]
  simp only [hoff, pure_bind]
  rw [Action.bind_run_ok (Action.complainAll_run _ e), Action.bind_run_ok (Action.complainAll_run _ e),
    ← List.append_assoc, ← List.map_append]
  rfl

/-- Whatever is shown besides, a run ends as its tree does. -/
theorem exists_run (options : Options) (src : String) (e : Env) :
    ∃ events, (run options src).run e =
      ⟨((Tree.ofSource src).tree.evaluate.run e).result,
        ((Tree.ofSource src).tree.evaluate.run e).env, events⟩ := by
  obtain ⟨dumps, hdumps⟩ := exists_mapM fun t ht => Token.exists_dump (isWritten_scan src t ht)
  obtain ⟨text, htext⟩ := Tree.exists_render (Tree.ofSource_ordinary src)
  exact ⟨_, run_run options hdumps htext e⟩

theorem run_result (options : Options) (src : String) (e : Env) :
    ((run options src).run e).result = ((Tree.ofSource src).tree.evaluate.run e).result := by
  obtain ⟨events, h⟩ := exists_run options src e
  rw [h]

theorem run_env (options : Options) (src : String) (e : Env) :
    ((run options src).run e).env = ((Tree.ofSource src).tree.evaluate.run e).env := by
  obtain ⟨events, h⟩ := exists_run options src e
  rw [h]

/-! ## Sequences of runs -/

/-- The variables after running program texts one after the other. -/
def after (options : Options) (e : Env) : List String → Env
  | [] => e
  | src :: srcs => after options ((run options src).run e).env srcs

/-- The events of running program texts one after the other. -/
def reported (options : Options) (e : Env) : List String → List Event
  | [] => []
  | src :: srcs =>
      ((run options src).run e).events ++ reported options ((run options src).run e).env srcs

/-- The results of running program texts one after the other. -/
def results (options : Options) (e : Env) : List String → List (Except Failure Value)
  | [] => []
  | src :: srcs =>
      ((run options src).run e).result :: results options ((run options src).run e).env srcs

theorem after_append (options : Options) (e : Env) (srcs more : List String) :
    after options e (srcs ++ more) = after options (after options e srcs) more := by
  induction srcs generalizing e with
  | nil => rfl
  | cons src srcs ih => exact ih _

theorem reported_append (options : Options) (e : Env) (srcs more : List String) :
    reported options e (srcs ++ more)
      = reported options e srcs ++ reported options (after options e srcs) more := by
  induction srcs generalizing e with
  | nil => rfl
  | cons src srcs ih =>
      rw [List.cons_append, reported, ih, reported, List.append_assoc]
      rfl

/-- An outcome with a result that has not left the language. -/
structure ReturnsLanguage (o : Outcome Value) : Prop where
  result : ∃ v, o.result = .ok v ∧ v.IsLanguage
  env : o.env.IsLanguage
  events : ∀ event ∈ o.events, event.IsLanguage

/-- The outcome of a text under the given options is that of the text with nothing shown, except that
the dumps asked for stand among the events: that of the tokens after the diagnostics of the scanner,
that of the tree after those of the reader. -/
structure AddsDumps (options : Options) (src : String) (shown silent : Outcome Value) : Prop where
  result : shown.result = silent.result
  env : shown.env = silent.env
  events : ∃ dumps text evaluated,
    (scan src).tokens.mapM Token.dump = .ok dumps ∧ (Tree.ofSource src).tree.render = .ok text ∧
    silent.events = (scan src).diagnostics.map .error
      ++ ((Tree.parse (scan src).tokens).diagnostics.map .error ++ evaluated) ∧
    shown.events = (scan src).diagnostics.map .error
      ++ ((if options.showTokens then [.log (.list (dumps.map .text))] else [])
      ++ ((Tree.parse (scan src).tokens).diagnostics.map .error
      ++ ((if options.showTree then [.log (.text text)] else []) ++ evaluated)))

theorem isLanguage_errors (ds : List Diagnostic) :
    ∀ event ∈ ds.map Event.error, event.IsLanguage := by
  intro event hmem
  obtain ⟨d, -, rfl⟩ := List.mem_map.mp hmem
  trivial

theorem isLanguage_optional {v : Value} (hv : v.IsLanguage) (b : Bool) :
    ∀ event ∈ (if b then [Event.log v] else []), event.IsLanguage := by
  intro event hmem
  cases b with
  | true =>
      rw [if_pos rfl, List.mem_singleton] at hmem
      rw [hmem]
      exact hv
  | false => cases hmem

/-- **One run returns, stays in the language, and is the same without dumps.** -/
theorem run_language {e : Env} (he : e.IsLanguage) (options : Options) (src : String) :
    ReturnsLanguage ((run options src).run e) ∧
      AddsDumps options src ((run options src).run e) ((run options.quiet src).run e) := by
  obtain ⟨dumps, hdumps⟩ := exists_mapM fun t ht => Token.exists_dump (isWritten_scan src t ht)
  have hordinary := Tree.ofSource_ordinary src
  obtain ⟨text, htext⟩ := Tree.exists_render hordinary
  obtain ⟨v, e', evaluated, hrun, hv, he', hevaluated⟩ :=
    Tree.stays_evaluate Value.isDomain_isLanguage hordinary e he
  have hshown := run_run options hdumps htext e
  have hsilent := run_run options.quiet hdumps htext e
  rw [hrun] at hshown hsilent
  rw [hshown, hsilent]
  refine ⟨⟨⟨v, rfl, hv⟩, he', ?_⟩, rfl, rfl, dumps, text, evaluated, hdumps, htext, rfl, rfl⟩
  have hdumped : (Value.list (dumps.map .text)).IsLanguage := by
    refine .list fun w hw => ?_
    obtain ⟨s, -, rfl⟩ := List.mem_map.mp hw
    exact .text s
  -- an event comes from the scanner, the dump of tokens, the reader, the dump of the tree, or the tree
  intro event hmem
  simp only [List.mem_append] at hmem
  rcases hmem with hmem | hmem | hmem | hmem | hmem
  · exact isLanguage_errors _ event hmem
  · exact isLanguage_optional hdumped _ event hmem
  · exact isLanguage_errors _ event hmem
  · exact isLanguage_optional (.text text) _ event hmem
  · exact hevaluated event hmem

/-- Every run of a sequence starts in the language, from the same variables with dumps as without. -/
theorem after_language {e : Env} (he : e.IsLanguage) (options : Options) (srcs : List String) :
    (after options e srcs).IsLanguage ∧ after options e srcs = after options.quiet e srcs := by
  induction srcs generalizing e with
  | nil => exact ⟨he, rfl⟩
  | cons src srcs ih =>
      obtain ⟨hreturns, hdumps⟩ := run_language he options src
      obtain ⟨hlanguage, heq⟩ := ih hreturns.env
      refine ⟨hlanguage, ?_⟩
      rw [after, after, heq, hdumps.env]

/-- **No program fails.** In a sequence of program texts, run one after the other from variables bound
to values of the language, every run returns a value of the language, keeps the variables in the
language, and logs only such values. What is shown besides makes no difference but for the dumps
themselves. Underneath, the guards of a fold keep its operation to operands for which this is defined: in
its place there may stand anything that does the same with these, even if it fails with all others. And a
double that is shown as a whole number has not too many digits for that. -/
theorem run_returns {e : Env} (he : e.IsLanguage) (options : Options) (srcs : List String)
    (src : String) :
    ReturnsLanguage ((run options src).run (after options e srcs)) ∧
    AddsDumps options src ((run options src).run (after options e srcs))
      ((run options.quiet src).run (after options.quiet e srcs)) ∧
    (∀ op raw, Tree.AgreesWhereDefined op raw →
      ∀ args, Tree.foldOperands (Tree.guardedOperand op raw) none args
        = Tree.foldOperands (Tree.combineOperand op) none args) ∧
    (∀ x n, Binary64.toInt? x = some n → Numeral.decimal? n = some (Number.float x).display) := by
  obtain ⟨hlanguage, heq⟩ := after_language he options srcs
  obtain ⟨hreturns, hdumps⟩ := run_language hlanguage options src
  rw [← heq]
  refine ⟨hreturns, hdumps, ?_, ?_⟩
  · intro op raw hraw args
    exact Tree.foldOperands_guarded hraw (fun a ha => by cases ha) args
  · intro x n hx
    unfold Numeral.decimal?
    rw [if_pos (Binary64.natAbs_lt_of_toInt? hx), Number.display, hx]

/-- A dividend, an operand that is no number, and zero behind it. -/
def quotientOperands : List Tree := [.number 7, .list [.name "get", .name "m"], .text "a", .number 0]

/-- A text that binds a variable to what another holds, and one that divides by it. A division that fails
where it is not defined does as well as the one that is used. -/
theorem run_returns_quotient :
    (Env.empty.bind "n" (.int (-5))).IsLanguage ∧
    ReturnsLanguage ((run { showTokens := true, showTree := true } "(div 7 (get m) 0)").run
      (after { showTokens := true, showTree := true } (Env.empty.bind "n" (.int (-5)))
        ["(set m (get n))"])) ∧
    Tree.foldOperands (Tree.guardedOperand .div (Tree.checkedOperand .div .tooManyDigits)) none
        quotientOperands
      = Tree.foldOperands (Tree.combineOperand .div) none quotientOperands := by
  have he := Env.isLanguage_empty.bind "n" (.number (.int (-5)))
  obtain ⟨hreturns, -, hguarded, -⟩ :=
    run_returns he { showTokens := true, showTree := true } ["(set m (get n))"] "(div 7 (get m) 0)"
  exact ⟨he, hreturns,
    hguarded .div _ (Tree.agreesWhereDefined_checked .div .tooManyDigits) quotientOperands⟩

end Session
end FormLang
