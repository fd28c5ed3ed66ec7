import FormLang.Token.Scan
import FormLang.Tree.Evaluate
import FormLang.Tree.Parse

/-!
# `FormLang.Session` — running program texts

A session is a sequence of program texts that share their variables. Running one of them scans it,
reads its tokens into a tree and evaluates the tree; diagnostics are reported stage by stage.

## Contents
- `Options`: what is shown besides the program's own output.
- `Tree.ofSource`: scanning and reading in one step.
- `Session.run`: the action of a program text.
-/

namespace FormLang

/-- What a session and its shell show. -/
structure Options where
  /-- Diagnostics are coloured. -/
  color : Bool := true
  /-- The tokens of a program are logged before it runs. -/
  showTokens : Bool := false
  /-- The tree of a program is logged before it runs. -/
  showTree : Bool := false
  /-- The shell shows the value of each program. -/
  echoResults : Bool := true
deriving DecidableEq

/-- The tree of a program text, with the diagnostics of scanning and of reading. -/
def Tree.ofSource (src : String) : Parse :=
  let scanned := scan src
  let parsed := Tree.parse scanned.tokens
  ⟨parsed.tree, scanned.diagnostics ++ parsed.diagnostics⟩

namespace Session

/-- Logs the dumps of tokens as a list of texts. -/
def logTokens (ts : List Token) : Action Unit := do
  let dumps ← Action.ofExcept (ts.mapM Token.dump)
  Action.log (.list (dumps.map Value.text))

/-- Logs a tree as program text. -/
def logTree (t : Tree) : Action Unit := do
  let text ← Action.ofExcept t.render
  Action.log (.text text)

/-- Runs a program text: its value, what it binds, and what it reports. -/
def run (options : Options) (src : String) : Action Value := do
  let scanned := scan src
  Action.complainAll scanned.diagnostics
  if options.showTokens then logTokens scanned.tokens
  let parsed := Tree.parse scanned.tokens
  Action.complainAll parsed.diagnostics
  if options.showTree then logTree parsed.tree
  parsed.tree.evaluate

end Session

end FormLang
