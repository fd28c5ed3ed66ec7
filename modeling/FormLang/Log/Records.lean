import FormLang.Action

/-!
# `FormLang.Log.Records` — events as levelled records

## Contents
- `Level`: how urgent a record is.
- `Record`: a level, the name of the log it belongs to, and a text.
- `Records`: a named log with a threshold; a record below it is dropped.
- `Records.title`: the name that its records bear.
- `Records.receive`: logged values become records of information, diagnostics records of error.
-/

namespace FormLang

/-- How urgent a record is, in ascending order. -/
inductive Level where
  | debug
  | info
  | error
  | critical
deriving DecidableEq

namespace Level

/-- The place of a level in the order. -/
def rank : Level → Nat
  | debug => 0
  | info => 1
  | error => 2
  | critical => 3

/-- The label of a level in a record. -/
def label : Level → String
  | debug => "DEBUG"
  | info => "INFO"
  | error => "ERROR"
  | critical => "CRITICAL"

end Level

/-- An entry of a log. -/
structure Record where
  level : Level
  name : String
  text : String
deriving DecidableEq

/-- A named log that keeps records from its threshold upward. -/
structure Records where
  name : String := "sexpl.program"
  threshold : Level := .info
  entries : List Record := []
deriving DecidableEq

namespace Records

/-- The name that records bear. The log without a name is the root of all logs. -/
def title (r : Records) : String := if r.name = "" then "root" else r.name

/-- Keeps a text at the given level, unless the level is below the threshold. -/
def add (r : Records) (level : Level) (text : String) : Records :=
  if r.threshold.rank ≤ level.rank then { r with entries := r.entries ++ [⟨level, r.title, text⟩] }
  else r

/-- Keeps an event as a record. -/
def receive (r : Records) : Event → Records
  | .log v => r.add .info v.display
  | .error d => r.add .error d.message

end Records

end FormLang
