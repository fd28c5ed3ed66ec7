import FormLang.Proofs.Shell.Handed
import Mathlib.Data.List.Infix

/-!
# `FormLang.Proofs.Shell.Segments` — which lines make up a form

A shell keeps one pending text and decides line by line. What comes of it can be said of the list of
lines as a whole: it falls into segments. A line for the shell itself is one segment, and runs nothing. Any
other line, stripped, begins a form, and takes as many of the lines after it as it needs for its
parentheses to balance, and no more; these are not stripped, and none of them is for the shell itself. A
form that no number of lines completes takes all that are left, and is not run.

## Contents
- `joinLines`, `firstWord`, `IsShellLine`: lines.
- `Completes`, `StaysPending`: lines that complete a form, and lines none of which does. One of the two
  holds of any lines that follow (`exists_completes`).
- `Segments`: the texts to be run that a list of lines amounts to.
- `handed_of_completes`, `handed_of_staysPending`: an entry goes through a segment.
- `segments_iff`, `course_segments`: a shell runs the segments of its lines.
-/

namespace FormLang

/-! ## Lines -/

/-- Lines with a newline between any two of them. -/
def joinLines (lines : List String) : String := "\n".intercalate lines

@[simp] theorem joinLines_singleton (line : String) : joinLines [line] = line := rfl

/-- The second line can be joined to the first before the others are. -/
theorem joinLines_cons_cons (first line : String) (more : List String) :
    joinLines (first :: line :: more) = joinLines ((first ++ "\n" ++ line) :: more) := rfl

/-- The word at the beginning of a line: the letters, digits and underscores up to another character. -/
def firstWord (line : String) : String := String.ofList (line.toList.takeWhile isWordChar)

/-- A line for the shell itself: it is empty, or begins with a question mark or one of three words. -/
def IsShellLine (line : String) : Prop :=
  line = "" ∨ line.toList.head? = some '?' ∨ firstWord line ∈ ["help", "exit", "EOF"]

instance (line : String) : Decidable (IsShellLine line) :=
  inferInstanceAs (Decidable (_ ∨ _ ∨ _))

/-- **What belongs to a form is what is not for the shell itself.** -/
theorem Request.ofLine?_eq_none_iff (line : String) :
    Request.ofLine? line = none ↔ ¬IsShellLine line := by
  unfold Request.ofLine? IsShellLine firstWord
  split
  · rename_i hnil
    have hempty : line = "" := String.toList_eq_nil_iff.mp hnil
    simp [hempty]
  · rename_i hmark
    simp [hmark]
  · rename_i hne hmark
    have hempty : line ≠ "" := fun heq => hne (by rw [heq]; rfl)
    have hhead : line.toList.head? ≠ some '?' := by
      intro hhead
      obtain ⟨cs, hcs⟩ := List.head?_eq_some_iff.mp hhead
      exact hmark cs hcs
    split <;> simp_all

/-! ## Forms over several lines -/

/-- The lines complete the form that begins with `first`, and fewer of them do not. -/
structure Completes (first : String) (more : List String) : Prop where
  balanced : balance (joinLines (first :: more)) ≤ 0
  before : ∀ m, m <+: more → m ≠ more → 0 < balance (joinLines (first :: m))

instance (first : String) (more : List String) : Decidable (Completes first more) :=
  decidable_of_iff (balance (joinLines (first :: more)) ≤ 0 ∧
      ∀ m ∈ more.inits, m ≠ more → 0 < balance (joinLines (first :: m)))
    ⟨fun h => ⟨h.1, fun m hm => h.2 m ((List.mem_inits m more).mpr hm)⟩,
      fun h => ⟨h.1, fun m hm => h.2 m ((List.mem_inits m more).mp hm)⟩⟩

/-- However many of the lines are taken, the form that begins with `first` is not complete. -/
def StaysPending (first : String) (lines : List String) : Prop :=
  ∀ m, m <+: lines → 0 < balance (joinLines (first :: m))

variable {first line : String} {more lines : List String}

theorem StaysPending.pos (h : StaysPending first lines) : 0 < balance first :=
  h [] List.nil_prefix

theorem completes_nil (h : balance first ≤ 0) : Completes first [] where
  balanced := h
  before _ hm hne := absurd (List.prefix_nil.mp hm) hne

theorem Completes.pos (h : Completes first (line :: more)) : 0 < balance first :=
  h.before [] List.nil_prefix (List.cons_ne_nil line more).symm

theorem Completes.cons (hfirst : 0 < balance first) (h : Completes (first ++ "\n" ++ line) more) :
    Completes first (line :: more) where
  balanced := by
    rw [joinLines_cons_cons]
    exact h.balanced
  before := by
    intro m hm hne
    rcases List.prefix_cons_iff.mp hm with rfl | ⟨n, rfl, hn⟩
    · exact hfirst
    · rw [joinLines_cons_cons]
      apply h.before n hn
      rintro rfl
      exact hne rfl

theorem Completes.tail (h : Completes first (line :: more)) :
    Completes (first ++ "\n" ++ line) more where
  balanced := by
    rw [← joinLines_cons_cons]
    exact h.balanced
  before := by
    intro m hm hne
    rw [← joinLines_cons_cons]
    apply h.before (line :: m) (List.cons_prefix_cons.mpr ⟨rfl, hm⟩)
    intro heq
    exact hne (List.cons.inj heq).2

theorem StaysPending.cons (hfirst : 0 < balance first)
    (h : StaysPending (first ++ "\n" ++ line) lines) : StaysPending first (line :: lines) := by
  intro m hm
  rcases List.prefix_cons_iff.mp hm with rfl | ⟨n, rfl, hn⟩
  · exact hfirst
  · rw [joinLines_cons_cons]
    exact h n hn

theorem StaysPending.tail (h : StaysPending first (line :: lines)) :
    StaysPending (first ++ "\n" ++ line) lines := by
  intro m hm
  rw [← joinLines_cons_cons]
  exact h (line :: m) (List.cons_prefix_cons.mpr ⟨rfl, hm⟩)

/-- **A form is completed by the lines that follow, or stays pending.** -/
theorem exists_completes (first : String) (lines : List String) :
    StaysPending first lines ∨ ∃ more rest, lines = more ++ rest ∧ Completes first more := by
  induction lines generalizing first with
  | nil =>
      by_cases hfirst : 0 < balance first
      · left
        intro m hm
        rw [List.prefix_nil.mp hm]
        exact hfirst
      · exact .inr ⟨[], [], rfl, completes_nil (Int.not_lt.mp hfirst)⟩
  | cons line lines ih =>
      by_cases hfirst : 0 < balance first
      · rcases ih (first ++ "\n" ++ line) with hpending | ⟨more, rest, rfl, hcompletes⟩
        · exact .inl (hpending.cons hfirst)
        · exact .inr ⟨line :: more, rest, rfl, hcompletes.cons hfirst⟩
      · exact .inr ⟨[], line :: lines, rfl, completes_nil (Int.not_lt.mp hfirst)⟩

/-- The texts to be run that lines amount to, segment by segment. -/
inductive Segments : List String → List String → Prop where
  | done : Segments [] []
  /-- A line for the shell itself. -/
  | skip {line : String} {lines srcs : List String} (hline : IsShellLine (Text.strip line))
      (hrest : Segments lines srcs) : Segments (line :: lines) srcs
  /-- A line that begins a form, and the lines that complete it. -/
  | form {line : String} {more rest srcs : List String} (hline : ¬IsShellLine (Text.strip line))
      (hmore : Completes (Text.strip line) more) (hrest : Segments rest srcs) :
      Segments (line :: (more ++ rest)) (joinLines (Text.strip line :: more) :: srcs)
  /-- A line that begins a form, and the lines after it, which do not complete it. -/
  | unfinished {line : String} {lines : List String} (hline : ¬IsShellLine (Text.strip line))
      (hlines : StaysPending (Text.strip line) lines) : Segments (line :: lines) []

/-- **Lines fall into segments.** -/
theorem exists_segments (lines : List String) : ∃ srcs, Segments lines srcs := by
  -- a form takes several lines at once, so that the induction is on how many are left
  induction hlen : lines.length using Nat.strongRecOn generalizing lines with
  | ind n ih =>
      cases lines with
      | nil => exact ⟨[], .done⟩
      | cons line lines =>
          rw [List.length_cons] at hlen
          by_cases hline : IsShellLine (Text.strip line)
          · obtain ⟨srcs, hsrcs⟩ := ih lines.length (by omega) lines rfl
            exact ⟨srcs, .skip hline hsrcs⟩
          · rcases exists_completes (Text.strip line) lines with hpending | ⟨more, rest, rfl, hmore⟩
            · exact ⟨[], .unfinished hline hpending⟩
            · rw [List.length_append] at hlen
              obtain ⟨srcs, hsrcs⟩ := ih rest.length (by omega) rest rfl
              exact ⟨_, .form hline hmore hsrcs⟩

/-! ## An entry goes through the segments -/

namespace Entry

/-- Without a pending form, a line for the shell itself adds to no form. -/
theorem text?_fresh (line : String) :
    ({} : Entry).text? line
      = if IsShellLine (Text.strip line) then none else some (Text.strip line) := by
  unfold text?
  rw [if_pos rfl]
  by_cases hline : IsShellLine (Text.strip line)
  · rw [if_pos hline]
    cases hrequest : Request.ofLine? (Text.strip line) with
    | some request => rfl
    | none => exact absurd hline ((Request.ofLine?_eq_none_iff _).mp hrequest)
  · rw [if_neg hline, (Request.ofLine?_eq_none_iff _).mpr hline]

/-- To a pending form every line adds, whatever it is. -/
theorem text?_pending (e : Entry) (h : 0 < balance e.pending) (line : String) :
    e.text? line = some (e.pending ++ "\n" ++ line) := by
  have hne : e.pending ≠ "" := by
    intro hempty
    rw [hempty] at h
    exact absurd h (by decide)
  unfold text?
  rw [if_neg hne]

/-- A line that adds to no form hands nothing over and leaves the entry as it is. -/
theorem take_of_text?_eq_none {e : Entry} (h : e.text? line = none) :
    (e.take (.line line)).1 = e ∧ (e.take (.line line)).2.source? = none := by
  show (e.feed line).1 = e ∧ (e.feed line).2.source? = none
  rcases e.feed_cases line with ⟨-, request, hfeed, hnone⟩ | ⟨src, hsrc, -⟩ | ⟨src, hsrc, -⟩
  · rw [hfeed]
    exact ⟨rfl, hnone⟩
  · rw [h] at hsrc
    cases hsrc
  · rw [h] at hsrc
    cases hsrc

/-- A text that a line makes up is pending if more parentheses are open in it than closed, and is
handed over otherwise. -/
theorem take_of_text? {e : Entry} {src : String} (h : e.text? line = some src) :
    e.take (.line line)
      = if 0 < balance src then (⟨src, continuationPrompt⟩, .wait) else ({}, .run src) := by
  show e.feed line = _
  rcases e.feed_cases line with ⟨hnone, -⟩ | ⟨text, htext, hbalance, hfeed⟩ |
    ⟨text, htext, hbalance, hfeed⟩
  · rw [h] at hnone
    cases hnone
  · obtain rfl : src = text := Option.some.inj (h.symm.trans htext)
    rw [if_pos hbalance, hfeed]
  · obtain rfl : src = text := Option.some.inj (h.symm.trans htext)
    rw [if_neg (Int.not_lt.mpr hbalance), hfeed]

variable {e : Entry} {src : String}

/-- **Lines that complete a form hand it over**, with the text that the first of them made up, and the
entry goes on from the beginning. -/
theorem handed_of_completes (h : e.text? line = some src) (hmore : Completes src more)
    (rest : List Input) :
    e.handed (.line line :: (more.map .line ++ rest))
      = joinLines (src :: more) :: ({} : Entry).handed rest := by
  induction more generalizing e line src with
  | nil =>
      have hsrc : balance src ≤ 0 := hmore.balanced
      rw [handed, take_of_text? h, if_neg (Int.not_lt.mpr hsrc)]
      rfl
  | cons next more ih =>
      have hnext := text?_pending ⟨src, continuationPrompt⟩ hmore.pos next
      rw [handed, take_of_text? h, if_pos hmore.pos, joinLines_cons_cons]
      exact ih hnext hmore.tail

/-- **Lines that do not complete a form hand nothing over**, and the form that they make up is
pending. -/
theorem handed_of_staysPending (h : e.text? line = some src) (hlines : StaysPending src lines) :
    e.handed ((line :: lines).map .line) = [] ∧
      e.after ((line :: lines).map .line) = ⟨joinLines (src :: lines), continuationPrompt⟩ := by
  induction lines generalizing e line src with
  | nil =>
      rw [List.map_singleton, handed, after, take_of_text? h, if_pos hlines.pos]
      exact ⟨rfl, rfl⟩
  | cons next lines ih =>
      have hnext := text?_pending ⟨src, continuationPrompt⟩ hlines.pos next
      rw [List.map_cons, handed, after, take_of_text? h, if_pos hlines.pos, joinLines_cons_cons]
      exact ih hnext hlines.tail

/-- **The texts that an entry hands over are those of the segments**, and there is one way only to cut
lines into segments. -/
theorem segments_iff {srcs : List String} :
    Segments lines srcs ↔ srcs = ({} : Entry).handed (lines.map .line) := by
  have hforward : ∀ {lines srcs}, Segments lines srcs →
      srcs = ({} : Entry).handed (lines.map .line) := by
    intro lines srcs h
    induction h with
    | done => rfl
    | @skip line lines srcs hline _ ih =>
        have htext := text?_fresh line
        rw [if_pos hline] at htext
        obtain ⟨hentry, hsource⟩ := take_of_text?_eq_none htext
        rw [List.map_cons, handed, hentry, hsource, ih]
        rfl
    | @form line more rest srcs hline hmore _ ih =>
        have htext := text?_fresh line
        rw [if_neg hline] at htext
        rw [List.map_cons, List.map_append, handed_of_completes htext hmore, ih]
    | @unfinished line lines hline hlines =>
        have htext := text?_fresh line
        rw [if_neg hline] at htext
        exact (handed_of_staysPending htext hlines).1.symm
  constructor
  · exact hforward
  · -- the lines have segments, and by the first direction these are the texts handed over
    intro hsrcs
    obtain ⟨srcs', h⟩ := exists_segments lines
    rw [hsrcs, ← hforward h]
    exact h

end Entry

namespace Shell

/-- **A shell runs the segments of its lines.** There is one list of texts that the lines given to a
shell amount to. These are the texts that it hands to its session, each once and in this order; and the
variables and the events are those of the session over them. -/
theorem course_segments (options : Options) (e : Env) (lines : List String) :
    ∃ srcs, (∀ srcs', Segments lines srcs' ↔ srcs' = srcs) ∧
      ({} : Entry).handed (lines.map .line) = srcs ∧
      (course options ⟨{}, e⟩ (lines.map .line)).1.env = Session.after options e srcs ∧
      (course options ⟨{}, e⟩ (lines.map .line)).2 = Session.reported options e srcs := by
  refine ⟨({} : Entry).handed (lines.map .line), fun srcs' => Entry.segments_iff, rfl, ?_, ?_⟩
  · rw [course_eq]
  · rw [course_eq]

/-- In the middle of a form `exit` and an empty line are no more than its text, and a parenthesis in
quotes closes nothing. -/
example : ({} : Entry).handed
    (["(print \"(\" ", " exit", "", "\")\" )", "EOF now", "?", " ! ) ", "(", "help"].map .line)
      = ["(print \"(\"\n exit\n\n\")\" )", "! )"] := by decide +kernel

end Shell
end FormLang
