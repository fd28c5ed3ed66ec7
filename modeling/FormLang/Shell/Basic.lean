import FormLang.Log.Console
import FormLang.Session
import FormLang.Shell.Entry

/-!
# `FormLang.Shell` — a session line by line

## Contents
- `Output`: what a shell gives out, in order: events of the session and texts of its own.
- `Console.show`: outputs on a console.
- `Shell`: the lines being gathered, and the variables.
- `Turn`, `Shell.feed`: what a line does.
-/

namespace FormLang

/-- A thing that a shell gives out. -/
inductive Output where
  | event (e : Event)
  | text (s : String)
deriving DecidableEq

/-- The events among outputs. -/
def Output.events (os : List Output) : List Event :=
  os.filterMap fun
    | .event e => some e
    | .text _ => none

/-- The texts of a shell's own among outputs, joined. -/
def Output.written (os : List Output) : String :=
  String.join (os.filterMap fun
    | .event _ => none
    | .text s => some s)

/-- Writes an output to its stream: the texts of a shell's own go to the output stream. -/
def Console.show (c : Console) : Output → Console
  | .event e => c.receive e
  | .text s => c.write s

/-- Writes outputs in order. -/
def Console.showAll (c : Console) (os : List Output) : Console := os.foldl Console.show c

/-- A shell between two lines. -/
structure Shell where
  entry : Entry := {}
  env : Env := {}
deriving DecidableEq

/-- What a line does: what is given out, and whether the shell is asked to stop. -/
structure Turn where
  stop : Bool
  outputs : List Output
deriving DecidableEq

namespace Shell

/-- What the word `help` writes. -/
def helpText : String :=
  "Each line is one form, e.g. (print (add 1 2)).\n\n" ++
  "Commands: print, add, sub, mult, div, set, get.\n" ++
  "Variables bound with (set x 5) stay available through (get x)\n" ++
  "until the shell exits. Unbalanced lines continue on the next prompt.\n"

/-- The line that shows the value of a form. Nothing is shown for an empty list. -/
def echo (options : Options) (result : Except Failure Value) : List Output :=
  match result with
  | .ok v => if options.echoResults && v != .list [] then [.text ("=> " ++ v.display ++ "\n")] else []
  | .error _ => []

/-- Does what a line asked for. -/
def answer (options : Options) (env : Env) : Request → Env × Turn
  | .wait => (env, ⟨false, []⟩)
  | .help => (env, ⟨false, [.text helpText]⟩)
  | .exit => (env, ⟨true, []⟩)
  | .endOfInput => (env, ⟨true, [.text "\n"]⟩)
  | .run src =>
      let outcome := (Session.run options src).run env
      (outcome.env, ⟨false, outcome.events.map Output.event ++ echo options outcome.result⟩)

/-- Takes a line. -/
def feed (options : Options) (s : Shell) (line : String) : Shell × Turn :=
  let (entry, request) := s.entry.feed line
  let (env, turn) := answer options s.env request
  (⟨entry, env⟩, turn)

end Shell

end FormLang
