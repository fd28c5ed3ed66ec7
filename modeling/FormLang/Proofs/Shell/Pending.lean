import FormLang.Proofs.Shell.Ending

/-!
# `FormLang.Proofs.Shell.Pending` — what a shell keeps between two inputs

A shell keeps a pending text, a prompt and the variables of its session. The first two always fit
together: there is nothing pending and the prompt asks for a form, or the text has parentheses open and
the prompt asks for more. That the text is empty is how the shell itself tells the two apart, and while
it is not, lines only lengthen it until its parentheses balance. So an interrupt, which drops the text,
leaves the shell as it was before the form was begun.

## Contents
- `Entry.IsFresh`, `Entry.IsOpen`, `Settled.fresh_xor_open`: the two states of an entry.
- `Shell.Reachable`: the states of a shell over lines and interrupts.
- `turn_of_open`, `turn_of_balanced`: a line for a pending text.
- `reachable_fresh_xor_open`: what holds in every state that a shell reaches.
- `Entry.Buffers`, `progress_buffered`: lines that are gathered into one pending form.
- `loopFrom_append`, `loopIn_interrupt`: a loop over a form that is broken off.
-/

namespace FormLang

/-! ## The two states of an entry -/

namespace Entry

/-- Nothing is pending, and the prompt asks for a form. -/
def IsFresh (e : Entry) : Prop := e.pending = "" ∧ e.prompt = primaryPrompt

/-- A text is pending in which parentheses stay open, counted over its characters as well as over its
tokens, and the prompt asks for more. -/
structure IsOpen (e : Entry) : Prop where
  nonempty : e.pending ≠ ""
  balance : 0 < balance e.pending
  tokens : closes (scan e.pending).tokens < opens (scan e.pending).tokens
  prompt : e.prompt = continuationPrompt

variable {e : Entry}

/-- **A settled entry is in one of the two states.** -/
theorem Settled.fresh_xor_open (h : e.Settled) : Xor e.IsFresh e.IsOpen := by
  by_cases hpending : e.pending = ""
  · left
    constructor
    · rcases h with rfl | ⟨hbalance, -⟩
      · exact ⟨rfl, rfl⟩
      · -- the empty text has nothing open
        rw [hpending] at hbalance
        exact absurd hbalance (by decide)
    · intro hopen
      exact hopen.nonempty hpending
  · obtain ⟨hbalance, hprompt⟩ := h.of_pending hpending
    right
    constructor
    · refine ⟨hpending, hbalance, ?_, hprompt⟩
      rw [balance_scan] at hbalance
      omega
    · intro hfresh
      exact hpending hfresh.1

theorem Settled.eq_of_pending_eq (h : e.Settled) (hpending : e.pending = "") : e = {} := by
  rcases h.fresh_xor_open with ⟨⟨-, hprompt⟩, -⟩ | ⟨hopen, -⟩
  · obtain ⟨text, prompt⟩ := e
    simp only at hpending hprompt
    simp [hpending, hprompt]
  · exact absurd hpending hopen.nonempty

end Entry

/-! ## Every state that a shell reaches -/

namespace Shell

/-- The states of a shell that starts with any variables and takes lines and interrupts, also past a line
that asks it to stop. -/
inductive Reachable (options : Options) : Shell → Prop where
  | start (e : Env) : Reachable options ⟨{}, e⟩
  | turn {s : Shell} (h : Reachable options s) (i : Input) : Reachable options (s.turn options i).1

variable {options : Options} {source : LineSource} {s : Shell}

theorem entry_turn (i : Input) : (s.turn options i).1.entry = (s.entry.take i).1 := by
  cases i <;> rfl

/-- **The entry of a shell is always settled.** -/
theorem Reachable.settled (h : Reachable options s) : s.entry.Settled := by
  induction h with
  | start e => exact .inl rfl
  | turn _ i ih =>
      rw [entry_turn]
      exact ih.take i

/-- The states of a loop between two inputs are among them. -/
theorem Reachable.progress (h : Reachable options s) (inputs : List Input) :
    Reachable options (s.progress options inputs).shell := by
  induction inputs generalizing s with
  | nil => exact h
  | cons i inputs ih =>
      by_cases hstop : (s.turn options i).2.stop = true
      · rw [progress_cons_of_stop hstop]
        exact h.turn i
      · rw [progress_cons_of_not_stop hstop]
        exact ih (h.turn i)

/-- A line that leaves parentheses open lengthens the pending text, and nothing else happens. -/
theorem turn_of_open (h : s.entry.pending ≠ "") {l : String}
    (hopen : 0 < balance (s.entry.pending ++ "\n" ++ l)) :
    s.turn options (.line l)
      = (⟨⟨s.entry.pending ++ "\n" ++ l, continuationPrompt⟩, s.env⟩, ⟨false, []⟩) := by
  have hfeed : s.entry.feed l = (⟨s.entry.pending ++ "\n" ++ l, continuationPrompt⟩, .wait) := by
    simp [Entry.feed, Entry.gather, h, hopen]
  simp only [turn, feed, hfeed, answer]

/-- A line that leaves none open has the text run. -/
theorem turn_of_balanced (h : s.entry.pending ≠ "") {l : String}
    (hbalance : balance (s.entry.pending ++ "\n" ++ l) ≤ 0) :
    s.turn options (.line l)
      = (⟨{}, ((Session.run options (s.entry.pending ++ "\n" ++ l)).run s.env).env⟩,
          ⟨false, ((Session.run options (s.entry.pending ++ "\n" ++ l)).run s.env).events.map .event
            ++ echo options ((Session.run options (s.entry.pending ++ "\n" ++ l)).run s.env).result⟩) := by
  have hfeed : s.entry.feed l = ({}, .run (s.entry.pending ++ "\n" ++ l)) := by
    simp [Entry.feed, Entry.gather, h, Int.not_lt.mpr hbalance]
  simp only [turn, feed, hfeed, answer]

/-- **The states of a shell.** In every state that a shell reaches exactly one of two things holds:
nothing is pending and the prompt asks for a form; or a text is pending, more parentheses open in it than
close, over its characters and over its tokens, and the prompt asks for more. An input that a shell takes
while a text is pending changes neither the variables nor what has been reported, unless it is a line
after which no more parentheses are open than closed. That line has the text run, once. -/
theorem reachable_fresh_xor_open (h : Reachable options s) :
    Xor s.entry.IsFresh s.entry.IsOpen ∧
    (s.entry.pending ≠ "" →
      (∀ i, (∀ l, i = .line l → 0 < balance (s.entry.pending ++ "\n" ++ l)) →
        (s.turn options i).1.env = s.env ∧ Output.events (s.turn options i).2.outputs = []) ∧
      ∀ l, balance (s.entry.pending ++ "\n" ++ l) ≤ 0 →
        (s.turn options (.line l)).1
            = ⟨{}, Session.after options s.env [s.entry.pending ++ "\n" ++ l]⟩ ∧
          Output.events (s.turn options (.line l)).2.outputs
            = Session.reported options s.env [s.entry.pending ++ "\n" ++ l]) := by
  refine ⟨h.settled.fresh_xor_open, fun hpending => ⟨?_, ?_⟩⟩
  · intro i hopen
    cases i with
    | interrupt => exact ⟨rfl, rfl⟩
    | line l =>
        rw [turn_of_open hpending (hopen l rfl)]
        exact ⟨rfl, rfl⟩
  · intro l hbalance
    rw [turn_of_balanced hpending hbalance]
    refine ⟨rfl, ?_⟩
    rw [Output.events_append, Output.events_map_event, events_echo]
    rfl

/-- A shell in the middle of a text in quotes, which hides a parenthesis. -/
theorem reachable_fresh_xor_open_quoted :
    ∃ s, Reachable {} s ∧ s.entry.pending ≠ "" ∧ s.entry.IsOpen ∧
      (s.turn {} (.line "exit)")).1.env = s.env ∧
      (s.turn {} (.line "\")")).1 = ⟨{}, Session.after {} s.env ["(set x \")\n\")"]⟩ := by
  have hreach : Reachable {} ((⟨{}, {}⟩ : Shell).turn {} (.line "(set x \")")).1 :=
    (Reachable.start {}).turn _
  have hpending : ((⟨{}, {}⟩ : Shell).turn {} (.line "(set x \")")).1.entry.pending = "(set x \")" := by
    decide +kernel
  have hne : ((⟨{}, {}⟩ : Shell).turn {} (.line "(set x \")")).1.entry.pending ≠ "" := by
    rw [hpending]
    decide
  obtain ⟨hstate, hturn⟩ := reachable_fresh_xor_open hreach
  obtain ⟨hwait, hrun⟩ := hturn hne
  refine ⟨_, hreach, hne, ?_, ?_, ?_⟩
  · rcases hstate with ⟨hfresh, -⟩ | ⟨hopen, -⟩
    · exact absurd hfresh.1 hne
    · exact hopen
  · refine (hwait (.line "exit)") ?_).1
    rintro l ⟨⟩
    rw [hpending]
    decide +kernel
  · have hbalance := hrun "\")"
    rw [hpending] at hbalance
    exact (hbalance (by decide +kernel)).1

end Shell

/-! ## A form that is broken off -/

namespace Entry

/-- Each of the lines leaves a form pending, so that together they begin one form and do not complete
it. -/
def Buffers (e : Entry) (lines : List String) : Prop :=
  ∀ m, m <+: lines → m ≠ [] → (e.after (m.map .line)).pending ≠ ""

instance (e : Entry) (lines : List String) : Decidable (e.Buffers lines) :=
  decidable_of_iff (∀ m ∈ lines.inits, m ≠ [] → (e.after (m.map .line)).pending ≠ "") (by
    simp only [List.mem_inits, Buffers])

variable {e : Entry} {line : String} {lines : List String}

theorem Buffers.head (h : e.Buffers (line :: lines)) : (e.feed line).1.pending ≠ "" :=
  h [line] (List.prefix_append [line] lines) (List.cons_ne_nil line [])

theorem Buffers.tail (h : e.Buffers (line :: lines)) : (e.feed line).1.Buffers lines := by
  intro m hm _
  exact h (line :: m) (List.cons_prefix_cons.mpr ⟨rfl, hm⟩) (List.cons_ne_nil line m)

/-- A line after which a form is pending asks for nothing. -/
theorem feed_of_pending (h : (e.feed line).1.pending ≠ "") :
    (e.feed line).2 = .wait ∧ (e.feed line).1.prompt = continuationPrompt := by
  rcases e.feed_cases line with ⟨htext, request, hfeed, -⟩ | ⟨src, -, -, hfeed⟩ | ⟨src, -, -, hfeed⟩
  · -- to a pending form every line adds, so that none was pending and none is
    rw [hfeed] at h
    simp [text?, h] at htext
  · rw [hfeed]
    exact ⟨rfl, rfl⟩
  · rw [hfeed] at h
    exact absurd rfl h

end Entry

/-- The transcript is the other one with something inserted behind what had been given out until then.
What is given out from there on is the same in both, and so are the events, the variables at the end, and
whether the loop got stuck. -/
structure Transcript.AddsTo (t kept : Transcript) (given inserted : List Output) : Prop where
  events : Output.events t.outputs = Output.events kept.outputs
  env : t.env = kept.env
  stuck : t.stuck = kept.stuck
  outputs : ∃ rest, kept.outputs = given ++ rest ∧ t.outputs = given ++ inserted ++ rest

namespace Shell

variable {options : Options} {source : LineSource} {s : Shell} {inputs : List Input}
  {lines : List String}

/-- **Lines that are gathered into one form** are answered with prompts only. Each of them but the first
has been asked for as more of the form, and so will the next be. -/
theorem progress_buffered (options : Options) (h : s.entry.Buffers lines) :
    (s.progress options (lines.map .line)).stopped = false ∧
    (s.progress options (lines.map .line)).shell.env = s.env ∧
    (s.progress options (lines.map .line)).outputs
        ++ [.text (s.progress options (lines.map .line)).shell.entry.prompt]
      = .text s.entry.prompt :: List.replicate lines.length (.text continuationPrompt) := by
  induction lines generalizing s with
  | nil => exact ⟨rfl, rfl, rfl⟩
  | cons line lines ih =>
      obtain ⟨hwait, hprompt⟩ := Entry.feed_of_pending h.head
      have hturn : s.turn options (.line line) = (⟨(s.entry.feed line).1, s.env⟩, ⟨false, []⟩) := by
        simp only [turn, feed, hwait, answer]
      have hgo : ¬(s.turn options (.line line)).2.stop = true := by
        rw [hturn]
        exact Bool.false_ne_true
      obtain ⟨hstopped, henv, houtputs⟩ := ih (s := ⟨(s.entry.feed line).1, s.env⟩) h.tail
      rw [List.map_cons, progress_cons_of_not_stop hgo, hturn]
      refine ⟨hstopped, henv, ?_⟩
      rw [hprompt] at houtputs
      exact congrArg (Output.text s.entry.prompt :: ·) houtputs

/-- **A loop over inputs and more**, where the first do not stop it, goes on from where these leave it. -/
theorem loopFrom_append (h : (s.progress options (inputs.map (seen source))).stopped = false)
    (more : List Input) :
    loopFrom options source s (inputs ++ more)
      = (loopFrom options source (s.progress options (inputs.map (seen source))).shell more).after
          (s.progress options (inputs.map (seen source))).outputs := by
  have hgo : ¬(s.progress options (inputs.map (seen source))).stopped = true := by
    rw [h]
    exact Bool.false_ne_true
  rw [loopFrom_eq, loopFrom_eq, List.map_append, List.append_assoc, progress_append, if_neg hgo,
    Progress.transcript_after]

/-- What a loop gives out where a form over so many lines is begun and broken off: a prompt for the form
and one for more after each line, and the sign of the interrupt. -/
def brokenOffOutputs (lines : Nat) : List Output :=
  .text primaryPrompt :: List.replicate lines (.text continuationPrompt) ++ [.text "^C\n"]

/-- Prompts are no events. -/
theorem events_brokenOffOutputs (lines : Nat) : Output.events (brokenOffOutputs lines) = [] := by
  unfold brokenOffOutputs
  rw [Output.events_append, events_cons_text]
  simp [Output.events]

/-- A loop over all its input, with the greeting, from a fresh shell whose session has the variables. -/
def loopIn (options : Options) (source : LineSource) (intro : Option String) (e : Env)
    (inputs : List Input) : Transcript :=
  (loopFrom options source ⟨{}, e⟩ inputs).after (greeting intro)

/-- The session of a loop has no variables at first. -/
theorem loop_eq_loopIn (options : Options) (source : LineSource) (intro : Option String)
    (inputs : List Input) : loop options source intro inputs = loopIn options source intro {} inputs :=
  rfl

/-- **A form that is begun and broken off leaves no trace** but its prompts and the sign of the
interrupt. -/
theorem loopFrom_interrupt (hfresh : s.entry = {}) (hlines : s.entry.Buffers (lines.map source.trim))
    (more : List Input) :
    loopFrom options source s (lines.map .line ++ .interrupt :: more)
      = (loopFrom options source s more).after (brokenOffOutputs lines.length) := by
  have hseen : (lines.map Input.line).map (seen source) = (lines.map source.trim).map .line := by
    simp [seen, Function.comp_def]
  obtain ⟨hstopped, henv, houtputs⟩ := progress_buffered options hlines
  rw [← hseen] at hstopped henv houtputs
  rw [loopFrom_append hstopped]
  generalize s.progress options ((lines.map Input.line).map (seen source)) = p at henv houtputs ⊢
  have hback : p.shell.interrupted = s := by
    obtain ⟨entry, e⟩ := s
    simp only at hfresh henv
    simp [interrupted, hfresh, henv]
  have hprompt : s.entry.prompt = primaryPrompt := by rw [hfresh]
  rw [hprompt, List.length_map] at houtputs
  show ((loopFrom options source p.shell.interrupted more).after
    [.text p.shell.entry.prompt, .text "^C\n"]).after p.outputs = _
  rw [hback, brokenOffOutputs, ← houtputs]
  simp [Transcript.after]

/-- **An interrupt cancels the pending form and nothing else.** After inputs that have not stopped the
loop, and with no form pending, any number of lines may begin a form that an interrupt breaks off. With
these lines and the interrupt, the loop reports the same events, ends with the same variables and gets
stuck just as without them. Behind the sign of the interrupt it gives out what it would have given out
without them, and not the greeting again. -/
theorem loopIn_interrupt {e : Env} {before more : List Input} {p : Progress}
    (hp : progress options ⟨{}, e⟩ (before.map (seen source)) = p) (hrunning : p.stopped = false)
    (hidle : p.shell.entry.pending = "") (hlines : p.shell.entry.Buffers (lines.map source.trim))
    (intro : Option String) :
    (loopIn options source intro e (before ++ (lines.map .line ++ .interrupt :: more))).AddsTo
      (loopIn options source intro e (before ++ more)) (greeting intro ++ p.outputs)
      (brokenOffOutputs lines.length) := by
  have hsettled : p.shell.entry.Settled := by
    rw [← hp]
    exact ((Reachable.start e).progress _).settled
  have hfresh : p.shell.entry = {} := hsettled.eq_of_pending_eq hidle
  have happend : ∀ inputs, loopFrom options source ⟨{}, e⟩ (before ++ inputs)
      = (loopFrom options source p.shell inputs).after p.outputs := by
    intro inputs
    rw [← hp] at hrunning ⊢
    exact loopFrom_append hrunning inputs
  unfold loopIn
  rw [happend, happend, loopFrom_interrupt hfresh hlines]
  refine ⟨?_, rfl, rfl, (loopFrom options source p.shell more).outputs, ?_, ?_⟩
  · simp [Transcript.after, Output.events_append, events_brokenOffOutputs]
  · simp [Transcript.after]
  · simp [Transcript.after]

/-- A form that binds a variable, and one that is broken off. -/
def beforeInterrupt : List Input := [.line "(set x 1)", .line "(get y", .interrupt]

/-- The beginning of a form, with a word of the shell in it. -/
def threeLines : List String := ["(set x (", "exit\r", "\")\""]

/-- What follows the interrupt reads the variable, and leaves another form open. -/
theorem loopIn_interrupt_threeLines :
    ∃ p, progress {} ⟨{}, {}⟩ (beforeInterrupt.map (seen .stream)) = p ∧ p.stopped = false ∧
      p.shell.entry.pending = "" ∧ p.shell.entry.Buffers (threeLines.map LineSource.stream.trim) ∧
      (loop {} .stream none (beforeInterrupt
        ++ (threeLines.map .line ++ .interrupt :: [.line "(get x)", .line "(print"]))).AddsTo
        (loop {} .stream none (beforeInterrupt ++ [.line "(get x)", .line "(print"]))
        (greeting none ++ p.outputs) (brokenOffOutputs 3) := by
  refine ⟨_, rfl, ?_⟩
  have hrunning :
      (progress {} ⟨{}, {}⟩ (beforeInterrupt.map (seen .stream))).stopped = false := by
    decide +kernel
  have hidle :
      (progress {} ⟨{}, {}⟩ (beforeInterrupt.map (seen .stream))).shell.entry.pending = "" := by
    decide +kernel
  have hlines :
      (progress {} ⟨{}, {}⟩ (beforeInterrupt.map (seen .stream))).shell.entry.Buffers
        (threeLines.map LineSource.stream.trim) := by
    decide +kernel
  rw [loop_eq_loopIn, loop_eq_loopIn]
  exact ⟨hrunning, hidle, hlines, loopIn_interrupt rfl hrunning hidle hlines none⟩

end Shell
end FormLang
