/-!
# `FormLang.CommandLine.Path` — where a file is looked for

A path is read once: its slashes only separate names, empty names and single points lead nowhere, and
what remains is a root and the names to follow from there.

## Contents
- `Root`: where a path starts.
- `Path`, `PathFault`, `Path.ofString`: a path and how it is read.
- `Path.text`, `Path.isTooLong`, `nameIsTooLong`: the limits on sizes.
-/

namespace FormLang.CommandLine

/-- Where a path starts. -/
inductive Root where
  /-- The working directory. -/
  | working
  /-- The root of the file system. -/
  | absolute
  /-- The root of the file system, written with exactly two slashes, which are kept. -/
  | doubled
deriving DecidableEq

/-- How a root is written. -/
def Root.text : Root → String
  | working => ""
  | absolute => "/"
  | doubled => "//"

/-- The root of a path that begins with so many slashes. -/
def Root.ofSlashes : Nat → Root
  | 0 => working
  | 2 => doubled
  | _ => absolute

/-- A path: where it starts, and the names to follow from there. -/
structure Path where
  root : Root
  names : List String
deriving DecidableEq

/-- Why a text is no path. -/
inductive PathFault where
  /-- A null character would end the path early. -/
  | nullCharacter
deriving DecidableEq

/-- The wording of a fault. -/
def PathFault.message : PathFault → String
  | nullCharacter => "embedded null byte"

/-- A text cut at each slash. -/
def splitAtSlashes : List Char → List (List Char)
  | [] => [[]]
  | '/' :: cs => [] :: splitAtSlashes cs
  | c :: cs => match splitAtSlashes cs with
      | [] => [[c]]
      | name :: names => (c :: name) :: names

/-- The greatest size of a name, in bytes. -/
def maxNameBytes : Nat := 255

/-- The greatest size of a path, in bytes. -/
def maxPathBytes : Nat := 4095

/-- Whether no file can have this name, for its size. -/
def nameIsTooLong (name : String) : Bool := maxNameBytes < name.utf8ByteSize

namespace Path

/-- The path that a text describes. -/
def ofString (s : String) : Except PathFault Path :=
  let cs := s.toList
  if '\x00' ∈ cs then .error .nullCharacter
  else .ok {
    root := .ofSlashes (cs.takeWhile (· == '/')).length
    names := ((splitAtSlashes cs).filter fun name => name != [] && name != ['.']).map String.ofList }

/-- The shortest text that describes the path. -/
def text (p : Path) : String := p.root.text ++ "/".intercalate p.names

/-- Whether nothing is looked for under this path, for its size. -/
def isTooLong (p : Path) : Bool := maxPathBytes < p.text.utf8ByteSize

end Path

end FormLang.CommandLine
