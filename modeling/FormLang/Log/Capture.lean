import FormLang.Action

/-!
# `FormLang.Log.Capture` — events kept for a host

## Contents
- `Capture`: the logged values and the wordings of the diagnostics, each in order.
- `Capture.receive`, `Capture.clear`, `Capture.output`.
-/

namespace FormLang

/-- Events that have been kept. -/
structure Capture where
  values : List Value := []
  errors : List String := []
deriving DecidableEq

namespace Capture

/-- Keeps an event. -/
def receive (c : Capture) : Event → Capture
  | .log v => { c with values := c.values ++ [v] }
  | .error d => { c with errors := c.errors ++ [d.message] }

/-- Forgets everything. -/
def clear (_ : Capture) : Capture := {}

/-- The displays of the values kept. -/
def output (c : Capture) : List String := c.values.map Value.display

end Capture

end FormLang
