import FormLang.CommandLine.Arguments
import FormLang.CommandLine.FileSystem
import FormLang.Shell.Loop

/-!
# `FormLang.CommandLine.Run` — the program as it is called from a command line

## Contents
- `Result`: an exit code and what is written to the two streams.
- `usage`, `helpText`: what is written about the command line itself.
- `runProgram`: a program text is run.
- `runShell`: the shell is run.
- `Stdin`, `run`: the whole program, given files and input.
-/

namespace FormLang.CommandLine

/-- How a run ends: its exit code, what it wrote, and, for a shell, whether it got stuck. -/
structure Result where
  code : Nat := 0
  out : String := ""
  err : String := ""
  stuck : Bool := false
deriving DecidableEq

/-- The name of the program. -/
def programName : String := "sexpl"

/-- The line that shows how the program is called. -/
def usage : String := "usage: " ++ programName ++ " [-h] [--tokens] [--ast] [--no-color] [file]\n"

/-- The answer to `--help`. -/
def helpText : String :=
  usage ++ "\n" ++
  "positional arguments:\n" ++
  "  file        program to run (if empty, reads stdin or starts the shell)\n\n" ++
  "options:\n" ++
  "  -h, --help  show this help message and exit\n" ++
  "  --tokens    print the token list before running\n" ++
  "  --ast       print the parsed tree before running\n" ++
  "  --no-color  plain diagnostics\n"

/-- The end of a run whose command line is refused. -/
def refuse (e : UsageError) : Result :=
  { code := 2, err := usage ++ programName ++ ": error: " ++ e.message ++ "\n" }

/-- The end of a run whose program text cannot be read. -/
def unreadable (name : String) (fault : ReadFault) : Result :=
  { code := 1, err := programName ++ ": cannot read '" ++ name ++ "': " ++ fault.message ++ "\n" }

/-- The options of the session that some settings ask for. -/
def Settings.options (s : Settings) : Options :=
  { color := !s.noColor, showTokens := s.showTokens, showTree := s.showTree }

/-- The name of standard input in messages. -/
def stdinName : String := "<stdin>"

/-- Runs a program from the bytes of its text, or from the fault that kept them away. -/
def runProgram (s : Settings) (name : String) (bytes : Except ReadFault (List UInt8)) : Result :=
  match bytes.bind textOfBytes with
  | .error fault => unreadable name fault
  | .ok src =>
      let options := s.options
      let console : Console := { color := options.color }
      let final := console.receiveAll ((Session.run options src).run {}).events
      { out := final.out, err := final.err }

/-- Runs the shell on what is typed at a terminal. -/
def runShell (s : Settings) (inputs : List Input) : Result :=
  let transcript := Shell.loop s.options .terminal none inputs
  let console : Console := { color := s.options.color }
  let final := console.showAll transcript.outputs
  { out := final.out, err := final.err, stuck := transcript.stuck }

/-- Standard input: a terminal and what is typed there, or the bytes of something else. -/
inductive Stdin where
  | terminal (inputs : List Input)
  | bytes (content : List UInt8)

/-- The whole program: its arguments, the files around it and its standard input decide how it
ends. Only a file name that is no path keeps it from ending in an orderly way. -/
def run (argv : List String) (files : FileSystem) (stdin : Stdin) : Except PathFault Result :=
  match Invocation.ofArguments argv with
  | .error e => .ok (refuse e)
  | .ok .help => .ok { out := helpText }
  | .ok (.run s) => match s.file, stdin with
      | some name, _ => do pure (runProgram s name (files.read (← Path.ofString name)))
      | none, .bytes content => .ok (runProgram s stdinName (.ok content))
      | none, .terminal inputs => .ok (runShell s inputs)

end FormLang.CommandLine
