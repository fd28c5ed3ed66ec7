import FormLang.Text.DecimalDigit
import FormLang.Text.Quoted

/-!
# `FormLang.CommandLine.Arguments` — reading the command line

Arguments are read in two passes. The first tells options from other arguments: long options may be
shortened as long as only one fits, `--` makes all that follow it plain, and an argument that
looks like a negative number or holds a space is plain unless it is an option. The second pass takes
them from left to right.

## Contents
- `Switch`: the options, with their spellings.
- `Argument`, `Argument.classify`: the first pass.
- `Settings`, `UsageError`, `Invocation`: what comes out.
- `Invocation.ofArguments`: both passes.
-/

namespace FormLang.CommandLine

/-- An option. None takes a value. -/
inductive Switch where
  | help
  | tokens
  | ast
  | noColor
deriving DecidableEq

namespace Switch

/-- All options, in the order in which they are listed. -/
def all : List Switch := [help, tokens, ast, noColor]

/-- The long spelling of an option. -/
def long : Switch → String
  | help => "--help"
  | tokens => "--tokens"
  | ast => "--ast"
  | noColor => "--no-color"

/-- How messages name an option. -/
def title : Switch → String
  | help => "-h/--help"
  | o => o.long

end Switch

/-- An argument after the first pass. -/
inductive Argument where
  | plain (s : String)
  /-- The first `--`. -/
  | separator
  /-- A long option, possibly shortened, with the text after an equals sign. -/
  | long (o : Switch) (value : Option String)
  /-- The option `-h`, with the text attached to it; an equals sign right after the letter does not
  belong to that text. -/
  | short (attached : Option (List Char))
  /-- What looks like an option and is none. -/
  | unknown (s : String)
deriving DecidableEq

/-- Why a command line is refused. -/
inductive UsageError where
  | ambiguous (argument : String) (candidates : List Switch)
  | unwantedValue (o : Switch) (value : String)
  | unrecognized (arguments : List String)
deriving DecidableEq

/-- The wording of a refusal. -/
def UsageError.message : UsageError → String
  | ambiguous argument candidates =>
      "ambiguous option: " ++ argument ++ " could match "
        ++ ", ".intercalate (candidates.map Switch.long)
  | unwantedValue o value =>
      "argument " ++ o.title ++ ": ignored explicit argument " ++ Text.quoted value
  | unrecognized arguments => "unrecognized arguments: " ++ " ".intercalate arguments

/-! ## The first pass -/

/-- A text up to its first equals sign, and what follows the sign if there is one. -/
def splitAtEquals (cs : List Char) : List Char × Option (List Char) :=
  match cs.dropWhile (· != '=') with
  | [] => (cs, none)
  | _ :: value => (cs.takeWhile (· != '='), some value)

/-- Whether a text is a minus with a whole or decimal number after it. A newline may follow. -/
def looksNegative (cs : List Char) : Bool :=
  let body := if cs.getLast? = some '\n' then cs.dropLast else cs
  match body with
  | '-' :: ds =>
      match ds.dropWhile Text.isDecimalDigit with
      | [] => !ds.isEmpty
      | '.' :: fraction => !fraction.isEmpty && fraction.all Text.isDecimalDigit
      | _ => false
  | _ => false

namespace Argument

/-- How an argument in front of `--` is to be understood. -/
def classify (s : String) : Except UsageError Argument :=
  let cs := s.toList
  let other : Argument :=
    if looksNegative cs || cs.contains ' ' then plain s else unknown s
  match cs with
  | [] | ['-'] => .ok (plain s)
  | '-' :: '-' :: _ =>
      let (name, value) := splitAtEquals cs
      let given := value.map String.ofList
      match Switch.all.find? fun o => o.long.toList == name with
      | some o => .ok (long o given)
      -- two dashes alone are the beginning of every option
      | none => match Switch.all.filter fun o => name.isPrefixOf o.long.toList with
          | [] => .ok other
          | [o] => .ok (long o given)
          | candidates => .error (.ambiguous s candidates)
  | '-' :: 'h' :: [] => .ok (short none)
  | '-' :: 'h' :: '=' :: attached => .ok (short (some attached))
  | '-' :: 'h' :: attached => .ok (short (some attached))
  | '-' :: _ => .ok other
  | _ => .ok (plain s)

/-- All arguments understood; from the first `--` on they are plain. -/
def classifyAll : List String → Except UsageError (List Argument)
  | [] => .ok []
  | s :: rest =>
      if s = "--" then .ok (separator :: rest.map plain)
      else do
        let a ← classify s
        let as ← classifyAll rest
        pure (a :: as)

end Argument

/-! ## The second pass -/

/-- What the command line asks of a run. -/
structure Settings where
  /-- The file to run; without one, standard input is run or the shell starts. -/
  file : Option String := none
  showTokens : Bool := false
  showTree : Bool := false
  noColor : Bool := false
deriving DecidableEq

/-- What the command line asks for. -/
inductive Invocation where
  | help
  | run (settings : Settings)
deriving DecidableEq

/-- The settings with an option that is not `help` switched on. -/
def Settings.enable (s : Settings) : Switch → Settings
  | .tokens => { s with showTokens := true }
  | .ast => { s with showTree := true }
  | .noColor => { s with noColor := true }
  | .help => s

/-- What `-h` with attached text asks for. The text may repeat the letter; from the first other
character on it is a value, which the option does not want. An empty text is such a value too. -/
def Invocation.ofAttached : List Char → Except UsageError Invocation
  | ['h'] => .ok .help
  | 'h' :: attached => ofAttached attached
  | value => .error (.unwantedValue .help (String.ofList value))

namespace Invocation

/-- Takes arguments from left to right. `fileTaken` tells whether the place of the file is filled, and
`extras` holds what found no place, last first. A separator beside the file goes with it. -/
def consume (s : Settings) (fileTaken : Bool) (extras : List String) :
    List Argument → Except UsageError Invocation
  | [] => if extras.isEmpty then .ok (.run s) else .error (.unrecognized extras.reverse)
  | .long o value :: rest => match value with
      | some v => .error (.unwantedValue o v)
      | none => if o = .help then .ok .help else consume (s.enable o) fileTaken extras rest
  | .short none :: _ => .ok .help
  | .short (some attached) :: _ => ofAttached attached
  | .unknown x :: rest => consume s fileTaken (x :: extras) rest
  -- an argument takes the separators beside it along, before it or after it
  | .separator :: .plain x :: rest =>
      if fileTaken then consume s true (x :: "--" :: extras) rest
      else consume { s with file := some x } true extras rest
  -- a separator without an argument after it fills the place of the file with nothing
  | .separator :: rest => consume s true (if fileTaken then "--" :: extras else extras) rest
  | .plain x :: .separator :: rest =>
      if fileTaken then consume s true ("--" :: x :: extras) rest
      else consume { s with file := some x } true extras rest
  | .plain x :: rest =>
      if fileTaken then consume s true (x :: extras) rest
      else consume { s with file := some x } true extras rest

/-- What the arguments ask for, or why they are refused. -/
def ofArguments (argv : List String) : Except UsageError Invocation := do
  consume {} false [] (← Argument.classifyAll argv)

end Invocation

end FormLang.CommandLine
