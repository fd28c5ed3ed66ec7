import FormLang.CommandLine.Run

/-!
# `FormLang.Main` — the program

Arguments are read, bytes are fetched, texts are printed; everything else is decided elsewhere.

## Contents
- `ReadFault.ofError`, `fetch`, `drain`: the bytes of a file, or why there are none, and of a stream.
- `emit`, `emitAll`: printing.
- `converse`: the shell at a terminal.
- `main`.
-/

namespace FormLang.CommandLine

/-- A system's error code as a small number. Some calls give it negated. -/
def errorNumber (code : UInt32) : UInt32 := min code (0 - code)

/-- The fault behind an error of the system. -/
def ReadFault.ofError : IO.Error → ReadFault
  | .noFileOrDirectory .. => .notFound
  | .inappropriateType _ code _ => if errorNumber code = 20 then .notADirectory else .isDirectory
  | .invalidArgument _ code details => if errorNumber code = 36 then .nameTooLong else .other details
  | .permissionDenied .. => .other "Permission denied"
  | e => .other (toString e)

/-- The bytes of the file at a path. -/
def fetch (path : Path) : IO (Except ReadFault (List UInt8)) := do
  let name := if path = ⟨.working, []⟩ then "." else path.text
  try
    return .ok (← IO.FS.readBinFile name).toList
  catch e =>
    return .error (.ofError e)

/-- The bytes of a stream up to its end, after those already read. -/
partial def drain (stream : IO.FS.Stream) (already : ByteArray) : IO ByteArray := do
  let chunk ← stream.read 65536
  if chunk.isEmpty then return already
  drain stream (already ++ chunk)

/-- Prints the texts of a console and leaves it empty. -/
def emit (c : Console) : IO Unit := do
  let out ← IO.getStdout
  let err ← IO.getStderr
  out.putStr c.out
  out.flush
  err.putStr c.err
  err.flush

/-- Prints outputs one by one, so that the two streams keep their common order. -/
def emitAll (options : Options) (os : List Output) : IO Unit :=
  os.forM fun o => emit (Console.show { color := options.color } o)

/-- The shell at a terminal. The end of the input is the line `EOF`, which a pending form swallows. -/
partial def converse (options : Options) (s : Shell) : IO Unit := do
  emitAll options [.text s.entry.prompt]
  let typed := (← (← IO.getStdin).getLine).toList
  let line :=
    if typed.isEmpty then "EOF"
    else String.ofList (if typed.getLast? = some '\n' then typed.dropLast else typed)
  let (next, turn) := s.feed options line
  emitAll options turn.outputs
  if !turn.stop then converse options next

/-- Prints how a run ended and gives its exit code. -/
def finish (r : Result) : IO UInt32 := do
  emit { out := r.out, err := r.err }
  return UInt32.ofNat r.code

/-- Runs what the settings ask for. -/
def perform (s : Settings) : IO UInt32 := do
  let stdin ← IO.getStdin
  match s.file with
  | some name => match Path.ofString name with
      | .ok path => finish (runProgram s name (← fetch path))
      | .error fault => finish { code := 1, err := fault.message ++ "\n" }
  | none =>
      if ← stdin.isTty then
        emitAll s.options (Shell.greeting none)
        converse s.options {}
        return 0
      else
        finish (runProgram s stdinName (.ok (← drain stdin .empty).toList))

end FormLang.CommandLine

open FormLang.CommandLine in
/-- The program. -/
def main (args : List String) : IO UInt32 :=
  match Invocation.ofArguments args with
  | .error e => finish (refuse e)
  | .ok .help => finish { out := helpText }
  | .ok (.run s) => perform s
