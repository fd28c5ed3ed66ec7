import FormLang.Proofs.Shell.Handed
import FormLang.Proofs.Token.Balance

/-!
# `FormLang.Proofs.Shell.Complete` — a shell runs no form that is still open

A shell decides by the balance of the text whether a form is complete. The reader of tokens decides by
the first parenthesis and the one that closes it. Where the first token is a parenthesis the two cannot
disagree in one direction: if in the whole text no more parentheses open than close, then, the count
not jumping, some first part of it closes the first parenthesis, and the reader stops there.

The converse does not hold, and no shell needs it: a complete form may be followed by open parentheses,
and then the shell waits for more.

## Contents
- `ofSource_list_of_balance`: a text whose balance is not positive and that begins with a parenthesis is
  read as a list.
- `handed_complete`: the texts that a shell hands over.
-/

namespace FormLang

/-! ## Texts that balance -/

namespace Tree

/-- **Tokens in which no more parentheses open than close make up a list**, counting the parenthesis
that is put in front where it is missing. -/
theorem parse_list_of_count {ts : List Token} (h : opens (framed ts) ≤ closes (framed ts)) :
    ∃ us, (Tree.parse ts).tree = .list us := by
  obtain ⟨line, body, hframed, -⟩ := exists_body ts
  have hbody : opens (untilEnd body) + 1 ≤ closes (untilEnd body) := by
    rw [hframed, opens_cons, closes_cons] at h
    simp [opens, closes] at h ⊢
    omega
  obtain ⟨r, hr, hclosing⟩ := exists_closing_of_count Nat.one_pos hbody
  have hclosed : ∃ p, ClosedPrefix p (framed ts) := by
    rw [hframed]
    exact ⟨_, closedPrefix_of_closing hr hclosing⟩
  rcases parse_list_or_unterminated ts with ⟨-, hlist⟩ | ⟨hopen, -⟩
  · exact hlist
  · exact absurd hclosed hopen

/-- **A text that begins with a parenthesis and does not stay open is read as a list.** -/
theorem ofSource_list_of_balance {src : String} (hbalance : balance src ≤ 0)
    (hopen : StartsOpen (scan src).tokens) : ∃ us, (Tree.ofSource src).tree = .list us := by
  apply parse_list_of_count
  obtain ⟨hopens, hcloses⟩ := count_untilEnd_scan src
  rw [framed, if_pos (startsOpen_untilEnd.mpr hopen), hopens, hcloses]
  rw [balance_eq_weigh, ← opens_sub_closes_scan] at hbalance
  omega

end Tree

/-! ## Shells -/

namespace Entry

/-- What an entry hands over does not stay open. -/
theorem balance_of_handed (e : Entry) (i : Input) (src : String)
    (h : (e.take i).2.source? = some src) : balance src ≤ 0 := by
  cases i with
  | interrupt => cases h
  | line l =>
      rw [take] at h
      rcases e.feed_cases l with ⟨-, request, hfeed, hnone⟩ | ⟨_, -, -, hfeed⟩ |
        ⟨text, -, hbalance, hfeed⟩
      · rw [hfeed, hnone] at h
        cases h
      · rw [hfeed] at h
        cases h
      · rw [hfeed] at h
        exact Option.some.inj h ▸ hbalance

end Entry

namespace Shell

theorem events_greeting (intro : Option String) : Output.events (greeting intro) = [] := by
  unfold greeting
  split <;> rfl

/-- **A shell runs no form that is still open.** From a fresh shell on, over lines and interrupts:
the variables and the events are those of its session over the texts that are handed over, and so are
those of a loop, which takes a first part of its inputs and the line that the end of input makes. Each
of these texts whose first token is a parenthesis is read as a list. A text that begins with a
parenthesis and is not terminated is pending after the line that made it. -/
theorem handed_complete (options : Options) (inputs : List Input) :
    course options {} inputs =
      (⟨({} : Entry).after inputs, Session.after options {} (({} : Entry).handed inputs)⟩,
        Session.reported options {} (({} : Entry).handed inputs)) ∧
    (∀ source intro, ∃ taken, taken <+: inputs.map (seen source) ++ [.line "EOF"] ∧
      (loop options source intro inputs).env
        = Session.after options {} (({} : Entry).handed taken) ∧
      Output.events (loop options source intro inputs).outputs
        = Session.reported options {} (({} : Entry).handed taken)) ∧
    (∀ src ∈ ({} : Entry).handed inputs, Tree.StartsOpen (scan src).tokens →
      (∃ us, (Tree.ofSource src).tree = .list us) ∧
        (Tree.ofSource src).tree ≠ .error "unterminated list") ∧
    (∀ line src, (({} : Entry).after inputs).text? line = some src →
      Tree.StartsOpen (scan src).tokens → (Tree.ofSource src).tree = .error "unterminated list" →
      (({} : Entry).after inputs).feed line = (⟨src, continuationPrompt⟩, .wait)) := by
  refine ⟨course_eq options {} inputs, ?_, ?_, ?_⟩
  · intro source intro
    obtain ⟨taken, htaken, henv, hevents⟩ := loopFrom_course options source {} inputs
    rw [course_eq] at henv hevents
    refine ⟨taken, htaken, henv, ?_⟩
    rw [loop, Transcript.after, Output.events_append, events_greeting, hevents]
    rfl
  · intro src hsrc hopen
    have hbalance : balance src ≤ 0 :=
      Entry.forall_handed (p := fun src => balance src ≤ 0) Entry.balance_of_handed {} inputs src hsrc
    obtain ⟨us, hus⟩ := Tree.ofSource_list_of_balance hbalance hopen
    refine ⟨⟨us, hus⟩, ?_⟩
    rw [hus]
    intro herror
    cases herror
  · intro line src htext hopen htree
    rcases (({} : Entry).after inputs).feed_cases line with ⟨hnone, -⟩ | ⟨text, hsome, -, hfeed⟩ |
      ⟨text, hsome, hbalance, -⟩
    · rw [htext] at hnone
      cases hnone
    · rw [htext] at hsome
      rw [Option.some.inj hsome]
      exact hfeed
    · rw [htext] at hsome
      rw [← Option.some.inj hsome] at hbalance
      obtain ⟨us, hus⟩ := Tree.ofSource_list_of_balance hbalance hopen
      rw [hus] at htree
      cases htree

/-- A form that is broken off, one over two lines with a parenthesis in quotes, and one that stays
open. -/
def brokenOff : List Input :=
  [.line "(a", .interrupt, .line "(add 1", .line "\"(\")", .line "(("]

/-- The last form is pending even after a parenthesis that closes one of its two lists. -/
theorem handed_complete_brokenOff :
    "(add 1\n\"(\")" ∈ ({} : Entry).handed brokenOff ∧
    Tree.StartsOpen (scan "(add 1\n\"(\")").tokens ∧
    ((∃ us, (Tree.ofSource "(add 1\n\"(\")").tree = .list us) ∧
      (Tree.ofSource "(add 1\n\"(\")").tree ≠ .error "unterminated list") ∧
    (({} : Entry).after brokenOff).text? ")" = some "((\n)" ∧
    Tree.StartsOpen (scan "((\n)").tokens ∧
    (Tree.ofSource "((\n)").tree = .error "unterminated list" ∧
    (({} : Entry).after brokenOff).feed ")" = (⟨"((\n)", continuationPrompt⟩, .wait) := by
  obtain ⟨-, -, hlist, hpending⟩ := handed_complete {} brokenOff
  have hhanded : "(add 1\n\"(\")" ∈ ({} : Entry).handed brokenOff := by decide +kernel
  have hopen : Tree.StartsOpen (scan "(add 1\n\"(\")").tokens := by decide +kernel
  have htext : (({} : Entry).after brokenOff).text? ")" = some "((\n)" := by decide +kernel
  have hstays : Tree.StartsOpen (scan "((\n)").tokens := by decide +kernel
  have htree : (Tree.ofSource "((\n)").tree = .error "unterminated list" := by decide +kernel
  exact ⟨hhanded, hopen, hlist _ hhanded hopen, htext, hstays, htree,
    hpending _ _ htext hstays htree⟩

end Shell
end FormLang
