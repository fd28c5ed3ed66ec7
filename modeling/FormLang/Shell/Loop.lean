import FormLang.Shell.Basic
import FormLang.Text.Newline

/-!
# `FormLang.Shell.Loop` — a shell from its greeting to its end

The loop prompts for a line, takes it, and goes on until a line stops it. An interrupt drops the
pending form. When the input ends, a line `EOF` takes its place, once; a pending form swallows that
line like any other, and the loop is then stuck before input that never comes.

## Contents
- `Input`: a line or an interrupt.
- `LineSource`: where lines come from decides what is cut off at their ends.
- `Transcript`: all that a loop gives out, its variables at the end, and whether it got stuck.
- `Shell.loop`.
-/

namespace FormLang

/-- What a person does at a prompt. -/
inductive Input where
  /-- A line, given without its final newline. -/
  | line (s : String)
  | interrupt
deriving DecidableEq

/-- Where lines come from. -/
inductive LineSource where
  /-- A stream of text: all carriage returns and newlines at the end of a line are dropped. -/
  | stream
  /-- A terminal: only the final newline is dropped. -/
  | terminal
deriving DecidableEq

/-- The line as the shell sees it. -/
def LineSource.trim : LineSource → String → String
  | stream, s => Text.trimLineEnd s
  | terminal, s => s

/-- The whole course of a loop. -/
structure Transcript where
  outputs : List Output
  env : Env
  stuck : Bool
deriving DecidableEq

/-- The transcript with something given out before it. -/
def Transcript.after (os : List Output) (t : Transcript) : Transcript :=
  { t with outputs := os ++ t.outputs }

namespace Shell

/-- The greeting of a loop. -/
def defaultIntro : String :=
  "SEXPL interpreter\nType 'help' for more information, 'exit' to leave."

/-- What the loop writes before its first prompt: the greeting in place of the usual one if there is
one, and nothing if it is empty. -/
def greeting (intro : Option String) : List Output :=
  match intro.getD defaultIntro with
  | "" => []
  | s => [.text (s ++ "\n")]

/-- What is left of the shell when a form is interrupted: its variables. -/
def interrupted (s : Shell) : Shell := { s with entry := {} }

/-- The loop from a given state on. -/
def loopFrom (options : Options) (source : LineSource) (s : Shell) : List Input → Transcript
  | [] =>
      -- a pending form would swallow any number of these lines
      let (s', turn) := s.feed options "EOF"
      let given := .text s.entry.prompt :: turn.outputs
      if turn.stop then ⟨given, s'.env, false⟩
      else ⟨given ++ [.text s'.entry.prompt], s'.env, true⟩
  | .interrupt :: rest =>
      (loopFrom options source s.interrupted rest).after [.text s.entry.prompt, .text "^C\n"]
  | .line l :: rest =>
      let (s', turn) := s.feed options (source.trim l)
      let given := .text s.entry.prompt :: turn.outputs
      if turn.stop then ⟨given, s'.env, false⟩
      else (loopFrom options source s' rest).after given

/-- A loop over all its input, from a fresh shell. -/
def loop (options : Options) (source : LineSource) (intro : Option String) (inputs : List Input) :
    Transcript :=
  (loopFrom options source {} inputs).after (greeting intro)

end Shell

end FormLang
