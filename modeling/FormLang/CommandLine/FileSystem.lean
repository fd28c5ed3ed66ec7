import FormLang.CommandLine.Path
import FormLang.Text.Newline
import FormLang.Text.Utf8

/-!
# `FormLang.CommandLine.FileSystem` — files and their texts

A path leads to the same place whether a file is put there or read from there. Reading also asks that
each name on the way be that of a directory.

## Contents
- `ReadFault`: why a file has no text.
- `textOfBytes`: bytes as program text.
- `Location`, `Location.enter`, `Path.location`: where paths lead.
- `FileSystem`, with `insert`, `node?` and `read`.
- `node?_insert_self`: what is put at the end of a path is found there.
-/

namespace FormLang.CommandLine

/-- Why a file cannot be read. -/
inductive ReadFault where
  | notFound
  | isDirectory
  | notADirectory
  | nameTooLong
  /-- The bytes from this offset on are not UTF-8. -/
  | illFormed (offset : Nat)
  /-- Something else, in the words of the system. -/
  | other (reason : String)
deriving DecidableEq

/-- The wording of a fault. -/
def ReadFault.message : ReadFault → String
  | notFound => "No such file or directory"
  | isDirectory => "Is a directory"
  | notADirectory => "Not a directory"
  | nameTooLong => "File name too long"
  | illFormed offset => "not valid UTF-8 at byte " ++ Nat.repr offset
  | other reason => reason

/-- The text that bytes encode, with all line ends unified. -/
def textOfBytes (bytes : List UInt8) : Except ReadFault String :=
  match Text.Utf8.decode bytes with
  | .ok cs => .ok (String.ofList (Text.unifyNewlines cs))
  | .error offset => .error (.illFormed offset)

/-! ## Locations -/

/-- A directory from which one goes down. How the two kinds lie to each other is not known. -/
inductive Base where
  /-- So many steps above the working directory. -/
  | above (steps : Nat)
  /-- The root of the file system. -/
  | root
deriving DecidableEq

/-- The base at which a path starts. -/
def Base.ofRoot : Root → Base
  | .working => above 0
  | .absolute | .doubled => root

/-- A place in a file system: a base, and the names that lead down from it. -/
structure Location where
  base : Base
  names : List String := []
deriving DecidableEq

namespace Location

/-- One step up. The root is its own parent. -/
def parent : Location → Location
  | ⟨base, name :: names⟩ => ⟨base, (name :: names).dropLast⟩
  | ⟨.above steps, []⟩ => ⟨.above (steps + 1), []⟩
  | ⟨.root, []⟩ => ⟨.root, []⟩

/-- Where a name leads: two points up, any other name down. -/
def enter (l : Location) (name : String) : Location :=
  if name = ".." then l.parent else { l with names := l.names ++ [name] }

/-- The places that names lead to, one after the other. -/
def trail (l : Location) : List String → List Location
  | [] => []
  | name :: names => l.enter name :: (l.enter name).trail names

end Location

/-- Where a path starts. -/
def Path.start (p : Path) : Location := ⟨.ofRoot p.root, []⟩

/-- Where a path ends. -/
def Path.location (p : Path) : Location := p.names.foldl Location.enter p.start

/-! ## Files -/

/-- What can be at a place: a directory, or a file with its bytes. -/
inductive Node where
  | directory
  | file (bytes : List UInt8)
deriving DecidableEq

/-- What is known to be at places below the bases. Of two nodes at one place the first counts. -/
structure FileSystem where
  nodes : List (Location × Node) := []

namespace FileSystem

/-- Puts a node at the end of a path, in place of what was there. The path passes through directories,
which need not have been put there before. -/
def insert (fs : FileSystem) (path : Path) (node : Node) : FileSystem :=
  let passed := (path.start.trail path.names).dropLast
  ⟨(path.location, node) :: (fs.nodes ++ passed.map fun l => (l, .directory))⟩

/-- What is at a place. The bases are directories. -/
def node? (fs : FileSystem) (l : Location) : Option Node :=
  if l.names.isEmpty then some .directory
  else (fs.nodes.find? fun n => n.1 == l).map Prod.snd

/-- What is put at the end of a path is found there. -/
theorem node?_insert_self (fs : FileSystem) {path : Path} (node : Node)
    (h : path.location.names ≠ []) : (fs.insert path node).node? path.location = some node := by
  simp [node?, insert, h]

/-- Follows one name. -/
def step (fs : FileSystem) : Location × Node → String → Except ReadFault (Location × Node)
  | (_, .file _), _ => .error .notADirectory
  | (here, .directory), name =>
      if nameIsTooLong name then .error .nameTooLong
      else match fs.node? (here.enter name) with
        | some node => .ok (here.enter name, node)
        | none => .error .notFound

/-- The bytes of the file at the end of a path. -/
def read (fs : FileSystem) (path : Path) : Except ReadFault (List UInt8) := do
  if path.isTooLong then throw .nameTooLong
  match ← path.names.foldlM fs.step (path.start, .directory) with
  | (_, .file bytes) => pure bytes
  | (_, .directory) => throw .isDirectory

end FileSystem

end FormLang.CommandLine
