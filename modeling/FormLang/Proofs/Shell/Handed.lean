import FormLang.Proofs.Session
import FormLang.Shell.Loop

/-!
# `FormLang.Proofs.Shell.Handed` — the texts that a shell hands to its session

What a shell does to its variables, and all that it reports, it does by handing texts to its session.
Which texts these are depends on the lines alone: an entry neither sees the variables nor what a text
came to. A shell is therefore described by the list of texts that its entry hands over (`handed`), and
by the session that runs them in order.

## Contents
- `Entry.text?`, `feed_cases`: the text that a line makes up with what is pending, and the three things
  that can become of a line.
- `Entry.take`, `Entry.after`, `Entry.handed`: an entry over lines and interrupts.
- `Shell.course`, `course_eq`: a shell over lines and interrupts is a session over the texts handed over.
- `loopFrom_course`: a loop is a course over a first part of its lines, with the line that the end of
  input makes.
-/

namespace FormLang

/-! ## One line -/

/-- The text that is to be run, if one is. -/
def Request.source? : Request → Option String
  | .run src => some src
  | .wait | .help | .exit | .endOfInput => none

/-- The words of a shell run nothing. -/
theorem Request.source?_of_ofLine? {line : String} {request : Request}
    (h : Request.ofLine? line = some request) : request.source? = none := by
  unfold Request.ofLine? at h
  split at h
  · rw [← Option.some.inj h]
    rfl
  · rw [← Option.some.inj h]
    rfl
  · split at h
    · rw [← Option.some.inj h]
      rfl
    · rw [← Option.some.inj h]
      rfl
    · rw [← Option.some.inj h]
      rfl
    · cases h

namespace Entry

/-- The text of a form that the line adds to or begins. A line that is a word of the shell, or empty,
belongs to no form unless one is pending. -/
def text? (e : Entry) (line : String) : Option String :=
  if e.pending = "" then
    match Request.ofLine? (Text.strip line) with
    | some _ => none
    | none => some (Text.strip line)
  else some (e.pending ++ "\n" ++ line)

/-- **What can become of a line.** It is a word of the shell; or it leaves a text in which more
parentheses are open than closed, which is then pending; or it completes a text, which is run. -/
theorem feed_cases (e : Entry) (line : String) :
    (e.text? line = none ∧ ∃ request, e.feed line = (e, request) ∧ request.source? = none) ∨
    (∃ src, e.text? line = some src ∧ 0 < balance src ∧
      e.feed line = (⟨src, continuationPrompt⟩, .wait)) ∨
    (∃ src, e.text? line = some src ∧ balance src ≤ 0 ∧ e.feed line = ({}, .run src)) := by
  have hgather : ∀ {l src}, (if e.pending = "" then l else e.pending ++ "\n" ++ l) = src →
      0 < balance src ∧ e.gather l = (⟨src, continuationPrompt⟩, .wait) ∨
        balance src ≤ 0 ∧ e.gather l = ({}, .run src) := by
    rintro l src rfl
    rw [gather]
    by_cases hbalance : 0 < balance (if e.pending = "" then l else e.pending ++ "\n" ++ l)
    · exact .inl ⟨hbalance, if_pos hbalance⟩
    · exact .inr ⟨Int.not_lt.mp hbalance, if_neg hbalance⟩
  by_cases hpending : e.pending = ""
  · cases hline : Request.ofLine? (Text.strip line) with
    | some request =>
        refine .inl ⟨by simp [text?, hpending, hline], request, ?_, ?_⟩
        · simp [feed, hpending, hline]
        · exact Request.source?_of_ofLine? hline
    | none =>
        have htext : e.text? line = some (Text.strip line) := by simp [text?, hpending, hline]
        have hfeed : e.feed line = e.gather (Text.strip line) := by simp [feed, hpending, hline]
        rw [hfeed, htext]
        rcases hgather (if_pos hpending) with h | h
        · exact .inr (.inl ⟨_, rfl, h⟩)
        · exact .inr (.inr ⟨_, rfl, h⟩)
  · have htext : e.text? line = some (e.pending ++ "\n" ++ line) := by simp [text?, hpending]
    have hfeed : e.feed line = e.gather line := by simp [feed, hpending]
    rw [hfeed, htext]
    rcases hgather (if_neg hpending) with h | h
    · exact .inr (.inl ⟨_, rfl, h⟩)
    · exact .inr (.inr ⟨_, rfl, h⟩)

/-! ## Lines and interrupts -/

/-- Takes an input: an interrupt drops what is pending. -/
def take (e : Entry) : Input → Entry × Request
  | .line l => e.feed l
  | .interrupt => ({}, .wait)

/-- The entry after inputs. -/
def after (e : Entry) : List Input → Entry
  | [] => e
  | i :: inputs => (e.take i).1.after inputs

/-- The texts that the entry hands over while it takes inputs, in order. -/
def handed (e : Entry) : List Input → List String
  | [] => []
  | i :: inputs => (e.take i).2.source?.toList ++ (e.take i).1.handed inputs

/-- What holds of a text that is handed over by any entry for any input holds of all texts that are
handed over. -/
theorem forall_handed {p : String → Prop}
    (h : ∀ (e : Entry) i src, (e.take i).2.source? = some src → p src) (e : Entry)
    (inputs : List Input) : ∀ src ∈ e.handed inputs, p src := by
  induction inputs generalizing e with
  | nil =>
      intro src hsrc
      cases hsrc
  | cons i inputs ih =>
      intro src hsrc
      rw [handed, List.mem_append, Option.mem_toList] at hsrc
      rcases hsrc with hsrc | hsrc
      · exact h e i src hsrc
      · exact ih _ src hsrc

end Entry

/-! ## A shell is a session over the texts handed over -/

theorem Output.events_append (os more : List Output) :
    Output.events (os ++ more) = Output.events os ++ Output.events more :=
  List.filterMap_append

theorem Output.events_map_event (events : List Event) :
    Output.events (events.map .event) = events := by
  rw [Output.events, List.filterMap_map]
  exact List.filterMap_some

namespace Shell

/-- An echo reports nothing. -/
theorem events_echo (options : Options) (result : Except Failure Value) :
    Output.events (echo options result) = [] := by
  unfold echo
  split
  · split <;> rfl
  · rfl

/-- Takes an input: what becomes of the shell, and what it reports. -/
def react (options : Options) (s : Shell) : Input → Shell × List Event
  | .line l => ((s.feed options l).1, Output.events (s.feed options l).2.outputs)
  | .interrupt => (s.interrupted, [])

/-- A shell over inputs, also past one that asks it to stop. -/
def course (options : Options) (s : Shell) : List Input → Shell × List Event
  | [] => (s, [])
  | i :: inputs =>
      let next := s.react options i
      let rest := course options next.1 inputs
      (rest.1, next.2 ++ rest.2)

/-- An answer is what the session makes of the text to be run, and nothing if there is none. -/
theorem answer_eq (options : Options) (env : Env) (request : Request) :
    (answer options env request).1 = Session.after options env request.source?.toList ∧
      Output.events (answer options env request).2.outputs
        = Session.reported options env request.source?.toList := by
  cases request with
  | run src =>
      refine ⟨rfl, ?_⟩
      show Output.events (((Session.run options src).run env).events.map Output.event
        ++ echo options ((Session.run options src).run env).result) = _
      rw [Output.events_append, Output.events_map_event, events_echo]
      rfl
  | _ => exact ⟨rfl, rfl⟩

/-- **One input.** The entry takes it, and the session runs what the entry hands over. -/
theorem react_eq (options : Options) (s : Shell) (i : Input) :
    s.react options i =
      (⟨(s.entry.take i).1, Session.after options s.env (s.entry.take i).2.source?.toList⟩,
        Session.reported options s.env (s.entry.take i).2.source?.toList) := by
  cases i with
  | line l =>
      obtain ⟨henv, hevents⟩ := answer_eq options s.env (s.entry.feed l).2
      show ((⟨(s.entry.feed l).1, (answer options s.env (s.entry.feed l).2).1⟩ : Shell),
        Output.events (answer options s.env (s.entry.feed l).2).2.outputs) = _
      rw [henv, hevents]
      rfl
  | interrupt => rfl

/-- **A shell is a session over the texts that its entry hands over.** -/
theorem course_eq (options : Options) (s : Shell) (inputs : List Input) :
    s.course options inputs =
      (⟨s.entry.after inputs, Session.after options s.env (s.entry.handed inputs)⟩,
        Session.reported options s.env (s.entry.handed inputs)) := by
  induction inputs generalizing s with
  | nil => rfl
  | cons i inputs ih =>
      simp only [course, react_eq, ih, Entry.after, Entry.handed, Session.after_append,
        Session.reported_append]

/-! ## Loops -/

/-- The input as the shell sees it. -/
def seen (source : LineSource) : Input → Input
  | .line l => .line (source.trim l)
  | .interrupt => .interrupt

theorem events_cons_text (text : String) (os : List Output) :
    Output.events (.text text :: os) = Output.events os := rfl

/-- A course over one line. -/
theorem course_line (options : Options) (s : Shell) (l : String) :
    s.course options [.line l] = ((s.feed options l).1, Output.events (s.feed options l).2.outputs) := by
  show ((s.feed options l).1, Output.events (s.feed options l).2.outputs ++ []) = _
  rw [List.append_nil]

/-- **A loop is a course** over a first part of its inputs, to which the end of input adds a line. The
prompts that it writes are no events. -/
theorem loopFrom_course (options : Options) (source : LineSource) (s : Shell) (inputs : List Input) :
    ∃ taken, taken <+: inputs.map (seen source) ++ [.line "EOF"] ∧
      (loopFrom options source s inputs).env = (s.course options taken).1.env ∧
      Output.events (loopFrom options source s inputs).outputs = (s.course options taken).2 := by
  induction inputs generalizing s with
  | nil =>
      refine ⟨[.line "EOF"], List.prefix_rfl, ?_⟩
      rw [course_line]
      simp only [loopFrom]
      by_cases hstop : (s.feed options "EOF").2.stop
      · rw [if_pos hstop]
        exact ⟨rfl, events_cons_text _ _⟩
      · rw [if_neg hstop]
        refine ⟨rfl, ?_⟩
        rw [Output.events_append, events_cons_text]
        exact List.append_nil _
  | cons i inputs ih =>
      cases i with
      | interrupt =>
          obtain ⟨taken, htaken, henv, hevents⟩ := ih s.interrupted
          refine ⟨.interrupt :: taken, List.cons_prefix_cons.mpr ⟨rfl, htaken⟩, henv, ?_⟩
          exact hevents
      | line l =>
          simp only [loopFrom]
          by_cases hstop : (s.feed options (source.trim l)).2.stop
          · refine ⟨[.line (source.trim l)], List.prefix_append [_] _, ?_⟩
            rw [if_pos hstop, course_line]
            exact ⟨rfl, events_cons_text _ _⟩
          · obtain ⟨taken, htaken, henv, hevents⟩ := ih (s.feed options (source.trim l)).1
            refine ⟨.line (source.trim l) :: taken, List.cons_prefix_cons.mpr ⟨rfl, htaken⟩, ?_⟩
            rw [if_neg hstop]
            refine ⟨henv, ?_⟩
            rw [Transcript.after, Output.events_append, events_cons_text, hevents]
            rfl

end Shell
end FormLang
