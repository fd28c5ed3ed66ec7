import FormLang.Proofs.Shell.Segments
import FormLang.Proofs.Token.Quotes

/-!
# `FormLang.Proofs.Shell.Ending` — when a loop ends

A loop ends when one of two words comes while no form is pending. Input that runs out makes one of these
words into a line. If a form is pending then, the line is added to its text, in which as many parentheses
stay open as before; so it is at each further attempt to read, and the loop can only prompt.

## Contents
- `IsFarewell`, `Entry.stops_iff`: the lines that end a loop.
- `Progress`, `Shell.progress`: a loop over lines and interrupts, as far as they go.
- `progress_append`, `loopFrom_eq`: a loop is what it is over all inputs and one line at their end.
- `stopped_iff`: a loop is stopped by a line.
- `Entry.Settled`: what is pending has parentheses open, and the prompt says so.
- `progress_endOfInput`: a pending form takes in the end of the input.
- `Shell.Ends`, `Shell.ends_iff`: when a loop ends, and what it does otherwise.
-/

namespace FormLang

open Text

/-! ## Lines that end a loop -/

/-- A stripped line that ends a loop if no form is pending: it begins with one of two words. -/
def IsFarewell (line : String) : Prop := firstWord line ∈ ["exit", "EOF"]

instance (line : String) : Decidable (IsFarewell line) := inferInstanceAs (Decidable (_ ∈ _))

/-- Whether the shell is asked to stop. -/
def Request.stops : Request → Bool
  | .exit | .endOfInput => true
  | .wait | .help | .run _ => false

/-- A line that asks the shell to stop. -/
theorem Request.stops_ofLine?_iff (line : String) :
    (∃ request, Request.ofLine? line = some request ∧ request.stops = true) ↔ IsFarewell line := by
  unfold Request.ofLine? IsFarewell firstWord
  split
  · rename_i hnil
    rw [hnil]
    simp [stops]
  · rename_i hmark
    have hword : isWordChar '?' = false := by decide
    rw [hmark, List.takeWhile_cons_of_neg (by simp [hword])]
    simp [stops]
  · split <;> simp_all [stops]

namespace Entry

variable {e : Entry} {line : String}

/-- **A line asks the shell to stop** exactly if no form is pending and it begins with one of the two
words. -/
theorem stops_iff : (e.feed line).2.stops = true ↔ e.pending = "" ∧ IsFarewell (strip line) := by
  have hgather : ∀ l, (e.gather l).2.stops = false := by
    intro l
    rw [gather]
    generalize (if e.pending = "" then l else e.pending ++ "\n" ++ l) = src
    by_cases hbalance : 0 < balance src
    · rw [if_pos hbalance]
      rfl
    · rw [if_neg hbalance]
      rfl
  by_cases hpending : e.pending = ""
  · rw [and_iff_right hpending, ← Request.stops_ofLine?_iff]
    cases hline : Request.ofLine? (strip line) with
    | some request =>
        have hfeed : e.feed line = (e, request) := by simp [feed, hpending, hline]
        simp [hfeed]
    | none =>
        have hfeed : e.feed line = e.gather (strip line) := by simp [feed, hpending, hline]
        simp [hfeed, hgather]
  · have hfeed : e.feed line = e.gather line := by simp [feed, hpending]
    simp [hfeed, hgather, hpending]

end Entry

/-! ## A loop as far as its inputs go -/

/-- How far a loop has come: what it has given out, the shell, and whether a line has stopped it. -/
structure Progress where
  outputs : List Output
  shell : Shell
  stopped : Bool
deriving DecidableEq

namespace Progress

/-- The progress with something given out before it. -/
def after (os : List Output) (p : Progress) : Progress := { p with outputs := os ++ p.outputs }

@[simp] theorem after_shell (os : List Output) (p : Progress) : (p.after os).shell = p.shell := rfl

@[simp] theorem after_stopped (os : List Output) (p : Progress) :
    (p.after os).stopped = p.stopped := rfl

theorem after_after (os more : List Output) (p : Progress) :
    (p.after more).after os = p.after (os ++ more) := by
  simp only [after, List.append_assoc]

/-- The transcript of a loop that reads no further. If no line has stopped it, it prompts for one more. -/
def transcript (p : Progress) : Transcript :=
  if p.stopped then ⟨p.outputs, p.shell.env, false⟩
  else ⟨p.outputs ++ [.text p.shell.entry.prompt], p.shell.env, true⟩

theorem stuck_transcript_iff (p : Progress) : p.transcript.stuck = true ↔ ¬p.stopped = true := by
  unfold transcript
  by_cases hstopped : p.stopped = true
  · rw [if_pos hstopped]
    exact iff_of_false Bool.false_ne_true (not_not_intro hstopped)
  · rw [if_neg hstopped]
    exact iff_of_true rfl hstopped

theorem transcript_after (os : List Output) (p : Progress) :
    (p.after os).transcript = p.transcript.after os := by
  unfold transcript
  rw [after_stopped]
  split
  · rfl
  · simp only [after, Transcript.after, List.append_assoc]

end Progress

namespace Shell

variable {options : Options} {source : LineSource} {s : Shell} {i : Input} {inputs : List Input}

/-- Takes an input. An interrupt is shown and never stops the shell. -/
def turn (options : Options) (s : Shell) : Input → Shell × Turn
  | .line l => s.feed options l
  | .interrupt => (s.interrupted, ⟨false, [.text "^C\n"]⟩)

/-- The loop over inputs, up to the one that stops it. -/
def progress (options : Options) (s : Shell) : List Input → Progress
  | [] => ⟨[], s, false⟩
  | i :: inputs =>
      let (s', turn) := s.turn options i
      let given := .text s.entry.prompt :: turn.outputs
      if turn.stop then ⟨given, s', true⟩
      else (progress options s' inputs).after given

theorem progress_cons_of_stop (h : (s.turn options i).2.stop = true) (inputs : List Input) :
    s.progress options (i :: inputs)
      = ⟨.text s.entry.prompt :: (s.turn options i).2.outputs, (s.turn options i).1, true⟩ := by
  simp only [progress]
  rw [if_pos h]

theorem progress_cons_of_not_stop (h : ¬(s.turn options i).2.stop = true) (inputs : List Input) :
    s.progress options (i :: inputs)
      = ((s.turn options i).1.progress options inputs).after
          (.text s.entry.prompt :: (s.turn options i).2.outputs) := by
  simp only [progress]
  rw [if_neg h]

/-- **What more inputs do to a loop.** Once it has been stopped they are not read. -/
theorem progress_append (options : Options) (s : Shell) (inputs more : List Input) :
    s.progress options (inputs ++ more) =
      if (s.progress options inputs).stopped then s.progress options inputs
      else ((s.progress options inputs).shell.progress options more).after
        (s.progress options inputs).outputs := by
  induction inputs generalizing s with
  | nil => rfl
  | cons i inputs ih =>
      rw [List.cons_append]
      by_cases hstop : (s.turn options i).2.stop = true
      · -- what is behind an input that stops the loop makes no difference
        rw [progress_cons_of_stop hstop, progress_cons_of_stop hstop]
        rfl
      · rw [progress_cons_of_not_stop hstop, progress_cons_of_not_stop hstop, ih,
          Progress.after_stopped, Progress.after_shell]
        split
        · rfl
        · rw [Progress.after_after]
          rfl

/-- **A loop is its progress over all inputs and the line that the end of the input makes.** -/
theorem loopFrom_eq (options : Options) (source : LineSource) (s : Shell) (inputs : List Input) :
    loopFrom options source s inputs
      = (s.progress options (inputs.map (seen source) ++ [.line "EOF"])).transcript := by
  induction inputs generalizing s with
  | nil =>
      -- the loop that has no inputs left makes the line itself
      have hturn : s.turn options (.line "EOF") = s.feed options "EOF" := rfl
      simp only [loopFrom]
      rw [← hturn, List.map_nil, List.nil_append]
      by_cases hstop : (s.turn options (.line "EOF")).2.stop = true
      · rw [if_pos hstop, progress_cons_of_stop hstop]
        rfl
      · rw [if_neg hstop, progress_cons_of_not_stop hstop, Progress.transcript_after]
        rfl
  | cons i inputs ih =>
      rw [List.map_cons, List.cons_append]
      cases i with
      | interrupt =>
          have hgo : ¬(s.turn options .interrupt).2.stop = true := Bool.false_ne_true
          rw [seen, progress_cons_of_not_stop hgo, Progress.transcript_after, ← ih]
          rfl
      | line l =>
          simp only [loopFrom, seen]
          have hturn : s.turn options (.line (source.trim l)) = s.feed options (source.trim l) := rfl
          rw [← hturn]
          by_cases hstop : (s.turn options (.line (source.trim l))).2.stop = true
          · rw [if_pos hstop, progress_cons_of_stop hstop]
            rfl
          · rw [if_neg hstop, progress_cons_of_not_stop hstop, Progress.transcript_after, ← ih]

/-! ## The line that stops a loop -/

/-- What the shell is asked for is what stops it. -/
theorem turn_stop_iff :
    (s.turn options i).2.stop = true ↔
      s.entry.pending = "" ∧ ∃ l, i = .line l ∧ IsFarewell (strip l) := by
  cases i with
  | interrupt => simp [turn]
  | line l =>
      have hstop : (s.turn options (.line l)).2.stop = (s.entry.feed l).2.stops := by
        show (answer options s.env (s.entry.feed l).2).2.stop = _
        cases (s.entry.feed l).2 <;> rfl
      rw [hstop, Entry.stops_iff]
      simp

/-- **A loop is stopped by a line** that it reads while no form is pending, and that begins with one of
the two words. -/
theorem stopped_iff :
    (s.progress options inputs).stopped = true ↔
      ∃ before l rest, inputs = before ++ .line l :: rest ∧
        (s.progress options before).stopped = false ∧
        (s.progress options before).shell.entry.pending = "" ∧ IsFarewell (strip l) := by
  constructor
  · intro hstopped
    induction inputs generalizing s with
    | nil => cases hstopped
    | cons i inputs ih =>
        by_cases hstop : (s.turn options i).2.stop = true
        · -- the first input is the line
          obtain ⟨hpending, l, rfl, hl⟩ := turn_stop_iff.mp hstop
          exact ⟨[], l, inputs, rfl, rfl, hpending, hl⟩
        · rw [progress_cons_of_not_stop hstop] at hstopped
          obtain ⟨before, l, rest, rfl, hbefore, hpending, hl⟩ := ih hstopped
          refine ⟨i :: before, l, rest, rfl, ?_, ?_, hl⟩
          · rw [progress_cons_of_not_stop hstop]
            exact hbefore
          · rw [progress_cons_of_not_stop hstop]
            exact hpending
  · rintro ⟨before, l, rest, rfl, hbefore, hpending, hl⟩
    have hstop : ((s.progress options before).shell.turn options (.line l)).2.stop = true :=
      turn_stop_iff.mpr ⟨hpending, l, rfl, hl⟩
    rw [progress_append, if_neg (by rw [hbefore]; exact Bool.false_ne_true), Progress.after_stopped,
      progress_cons_of_stop hstop]

/-! ## What is pending between two lines -/

end Shell

namespace Entry

/-- Nothing is pending, or a text in which more parentheses are open than closed, and the prompt is the
one for it. -/
def Settled (e : Entry) : Prop := e = {} ∨ 0 < balance e.pending ∧ e.prompt = continuationPrompt

variable {e : Entry}

theorem Settled.of_pending (h : e.Settled) (hne : e.pending ≠ "") :
    0 < balance e.pending ∧ e.prompt = continuationPrompt :=
  h.resolve_left fun hfresh => hne (congrArg Entry.pending hfresh)

/-- **An input leaves the entry settled.** -/
theorem Settled.take (h : e.Settled) (i : Input) : (e.take i).1.Settled := by
  cases i with
  | interrupt => exact .inl rfl
  | line l =>
      show (e.feed l).1.Settled
      rcases e.feed_cases l with ⟨-, request, hfeed, -⟩ | ⟨src, -, hbalance, hfeed⟩ |
        ⟨src, -, -, hfeed⟩
      · rw [hfeed]
        exact h
      · rw [hfeed]
        exact .inr ⟨hbalance, rfl⟩
      · rw [hfeed]
        exact .inl rfl

end Entry

namespace Shell

variable {options : Options} {source : LineSource} {s : Shell} {inputs : List Input}

/-- **A loop leaves the entry settled**, whatever its inputs are. -/
theorem settled_progress (h : s.entry.Settled) :
    (s.progress options inputs).shell.entry.Settled := by
  induction inputs generalizing s with
  | nil => exact h
  | cons i inputs ih =>
      have hnext : (s.turn options i).1.entry.Settled := by
        have hentry : (s.turn options i).1.entry = (s.entry.take i).1 := by cases i <;> rfl
        rw [hentry]
        exact h.take i
      by_cases hstop : (s.turn options i).2.stop = true
      · rw [progress_cons_of_stop hstop]
        exact hnext
      · rw [progress_cons_of_not_stop hstop]
        exact ih hnext

/-! ## A pending form at the end of the input -/

/-- The line that the end of the input makes changes no balance, whether or not the text ends inside
quotes. -/
theorem balance_endOfInput (text : String) : balance (text ++ "\n" ++ "EOF") = balance text := by
  have hzero : ∀ quoted, balanceFrom quoted "\nEOF".toList = 0 := by decide
  unfold balance
  rw [String.append_assoc, String.toList_append, balanceFrom_append]
  exact (congrArg _ (hzero _)).trans (Int.add_zero _)

theorem balance_joinLines_endOfInput (text : String) (n : Nat) :
    balance (joinLines (text :: List.replicate n "EOF")) = balance text := by
  induction n generalizing text with
  | zero => rfl
  | succ n ih => rw [List.replicate_succ, joinLines_cons_cons, ih, balance_endOfInput]

/-- A pending form takes in the line that the end of the input makes, and stays pending. -/
theorem turn_endOfInput (options : Options) (h : 0 < balance s.entry.pending) :
    s.turn options (.line "EOF")
      = (⟨⟨s.entry.pending ++ "\n" ++ "EOF", continuationPrompt⟩, s.env⟩, ⟨false, []⟩) := by
  have hbalance : 0 < balance (s.entry.pending ++ "\n" ++ "EOF") := by
    rw [balance_endOfInput]
    exact h
  have htake := Entry.take_of_text? (Entry.text?_pending s.entry h "EOF")
  rw [if_pos hbalance] at htake
  have hfeed : s.entry.feed "EOF"
      = (⟨s.entry.pending ++ "\n" ++ "EOF", continuationPrompt⟩, .wait) := htake
  simp only [turn, feed, hfeed, answer]

/-- **A pending form takes in the end of the input**, however often it is read: nothing is run, and
there is nothing to see but the prompt. -/
theorem progress_endOfInput (options : Options) (h : 0 < balance s.entry.pending)
    (hprompt : s.entry.prompt = continuationPrompt) (n : Nat) :
    s.progress options (List.replicate n (.line "EOF")) =
      ⟨List.replicate n (.text continuationPrompt),
        ⟨⟨joinLines (s.entry.pending :: List.replicate n "EOF"), continuationPrompt⟩, s.env⟩,
        false⟩ := by
  induction n generalizing s with
  | zero =>
      obtain ⟨⟨text, prompt⟩, e⟩ := s
      obtain rfl : prompt = continuationPrompt := hprompt
      rfl
  | succ n ih =>
      have hturn := turn_endOfInput options h
      have hgo : ¬(s.turn options (.line "EOF")).2.stop = true := by
        rw [hturn]
        exact Bool.false_ne_true
      have hnext : 0 < balance (s.entry.pending ++ "\n" ++ "EOF") := by
        rw [balance_endOfInput]
        exact h
      have hjoined : joinLines (s.entry.pending :: List.replicate (n + 1) "EOF")
          = joinLines ((s.entry.pending ++ "\n" ++ "EOF") :: List.replicate n "EOF") := by
        rw [List.replicate_succ, joinLines_cons_cons]
      have hrest :=
        ih (s := ⟨⟨s.entry.pending ++ "\n" ++ "EOF", continuationPrompt⟩, s.env⟩) hnext rfl
      rw [hjoined, List.replicate_succ, progress_cons_of_not_stop hgo, hturn, hrest, hprompt]
      rfl

/-- Without a pending form the end of the input stops the shell. -/
theorem turn_endOfInput_stop (h : s.entry.pending = "") :
    (s.turn options (.line "EOF")).2.stop = true :=
  turn_stop_iff.mpr ⟨h, "EOF", rfl, by decide⟩

/-- **Once the input has run out, a loop is stopped exactly if it had been stopped before or no form is
pending.** The first attempt to read decides this. -/
theorem stopped_endOfInput_iff (h : s.entry.Settled) (inputs : List Input) (n : Nat) :
    (s.progress options (inputs ++ List.replicate (n + 1) (.line "EOF"))).stopped = true ↔
      (s.progress options inputs).stopped = true ∨
        (s.progress options inputs).shell.entry.pending = "" := by
  have hsettled : (s.progress options inputs).shell.entry.Settled := settled_progress h
  rw [progress_append]
  generalize s.progress options inputs = p at hsettled ⊢
  by_cases hstopped : p.stopped = true
  · rw [if_pos hstopped]
    exact (or_iff_left_of_imp fun _ => hstopped).symm
  · rw [if_neg hstopped, or_iff_right hstopped, Progress.after_stopped]
    constructor
    · intro hend
      by_contra hpending
      -- a settled entry that is not fresh never lets go of its text
      obtain ⟨hbalance, hprompt⟩ := hsettled.of_pending hpending
      rw [progress_endOfInput options hbalance hprompt] at hend
      cases hend
    · intro hpending
      rw [List.replicate_succ, progress_cons_of_stop (turn_endOfInput_stop hpending)]

/-! ## When a loop ends -/

/-- A loop over inputs ends: after some number of attempts to read on when they have run out, each of which
makes the line `EOF`, it is stopped. -/
def Ends (options : Options) (source : LineSource) (s : Shell) (inputs : List Input) : Prop :=
  ∃ n, (s.progress options (inputs.map (seen source) ++ List.replicate n (.line "EOF"))).stopped
    = true

/-- A loop ends if a line stops it, or if no form is pending when its input runs out. -/
theorem ends_iff_stopped_or (h : s.entry.Settled) :
    Ends options source s inputs ↔
      (s.progress options (inputs.map (seen source))).stopped = true ∨
        (s.progress options (inputs.map (seen source))).shell.entry.pending = "" := by
  constructor
  · rintro ⟨n, hn⟩
    cases n with
    | zero =>
        rw [List.replicate_zero, List.append_nil] at hn
        exact .inl hn
    | succ n => exact (stopped_endOfInput_iff h _ n).mp hn
  · intro hend
    exact ⟨1, (stopped_endOfInput_iff h _ 0).mpr hend⟩

/-- **The loop is stuck exactly if it does not end.** It need not try to read on more than once. -/
theorem loopFrom_stuck_iff (h : s.entry.Settled) :
    (loopFrom options source s inputs).stuck = true ↔ ¬Ends options source s inputs := by
  rw [ends_iff_stopped_or h, ← stopped_endOfInput_iff h _ 0, loopFrom_eq]
  exact Progress.stuck_transcript_iff _

/-- **When a loop ends, and what it does otherwise.** A loop ends exactly if a line that it reads while no
form is pending begins with one of two words, or if no form is pending when its input runs out. Otherwise
the loop is stuck. However often it tries to read on, the line `EOF` is added to the pending form, in which
as many parentheses stay open; no text is run, and nothing but prompts is given out. That the line leaves
the balance as it is holds of any text, also of one that ends inside quotes. -/
theorem ends_iff (options : Options) (source : LineSource) (e : Env) (inputs : List Input) :
    ∃ p, progress options ⟨{}, e⟩ (inputs.map (seen source)) = p ∧
      (Ends options source ⟨{}, e⟩ inputs ↔
        (∃ before l rest, inputs.map (seen source) = before ++ .line l :: rest ∧
          (progress options ⟨{}, e⟩ before).stopped = false ∧
          (progress options ⟨{}, e⟩ before).shell.entry.pending = "" ∧ IsFarewell (strip l)) ∨
        p.shell.entry.pending = "") ∧
      ((loopFrom options source ⟨{}, e⟩ inputs).stuck = true ↔ ¬Ends options source ⟨{}, e⟩ inputs) ∧
      (¬Ends options source ⟨{}, e⟩ inputs →
        0 < balance p.shell.entry.pending ∧
        ∀ n, progress options ⟨{}, e⟩
              (inputs.map (seen source) ++ List.replicate n (.line "EOF")) =
            ⟨p.outputs ++ List.replicate n (.text continuationPrompt),
              ⟨⟨joinLines (p.shell.entry.pending :: List.replicate n "EOF"), continuationPrompt⟩,
                p.shell.env⟩, false⟩ ∧
          balance (joinLines (p.shell.entry.pending :: List.replicate n "EOF"))
            = balance p.shell.entry.pending) ∧
      ∀ text, balance (text ++ "\n" ++ "EOF") = balance text := by
  have hfresh : (⟨{}, e⟩ : Shell).entry.Settled := .inl rfl
  have hends : Ends options source ⟨{}, e⟩ inputs ↔ _ := ends_iff_stopped_or hfresh
  refine ⟨_, rfl, ?_, loopFrom_stuck_iff hfresh, ?_, balance_endOfInput⟩
  · rw [hends, stopped_iff]
  · intro hnot
    rw [hends, not_or] at hnot
    obtain ⟨hstopped, hpending⟩ := hnot
    obtain ⟨hbalance, hprompt⟩ := (settled_progress hfresh).of_pending hpending
    refine ⟨hbalance, fun n => ⟨?_, balance_joinLines_endOfInput _ n⟩⟩
    rw [progress_append, if_neg hstopped, progress_endOfInput options hbalance hprompt]
    rfl

/-- A word inside a form does not end the loop, and after an interrupt it does. -/
example :
    (loop {} .stream none [.line "(print \"", .line "exit"]).stuck = true ∧
      (loop {} .stream none
        [.line "(print \"", .interrupt, .line " exit now", .line "(print 1"]).stuck = false := by
  decide +kernel

end Shell
end FormLang
