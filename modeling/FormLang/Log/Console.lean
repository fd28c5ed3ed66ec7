import FormLang.Action

/-!
# `FormLang.Log.Console` — events on two text streams

## Contents
- `Console`: what has been written to the output and to the error stream.
- `Console.write`, `Console.receive`: a text, or an event, is written.

Logged values go to the output stream in display form, one a line. Diagnostics go to the error
stream after the word `error`, which is bold and red on a console with colour.
-/

namespace FormLang

/-- A console with its two streams. -/
structure Console where
  color : Bool := true
  out : String := ""
  err : String := ""
deriving DecidableEq

namespace Console

/-- What stands in front of a diagnostic. -/
def errorLabel (color : Bool) : String :=
  if color then "\x1b[1m\x1b[31merror: \x1b[0m" else "error: "

/-- Writes a text to the output stream. -/
def write (c : Console) (s : String) : Console := { c with out := c.out ++ s }

/-- Writes an event to its stream. -/
def receive (c : Console) : Event → Console
  | .log v => c.write (v.display ++ "\n")
  | .error d => { c with err := c.err ++ errorLabel c.color ++ d.message ++ "\n" }

/-- Writes events in order. -/
def receiveAll (c : Console) (events : List Event) : Console := events.foldl receive c

end Console

end FormLang
