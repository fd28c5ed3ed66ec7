import FormLang.Source.Balance
import FormLang.Text.Blank

/-!
# `FormLang.Shell.Entry` — lines gathered into forms

A person types a form over as many lines as it takes. While more parentheses are open than closed
the text so far is pending, and whatever is typed belongs to it. Otherwise a line is a word of the
shell, or a form, or nothing.

## Contents
- `Entry`: the pending text and the prompt for the next line.
- `Request`: what a line asks for.
- `Entry.gather`, `Entry.feed`: a line is taken.
-/

namespace FormLang

/-- The prompt for a new form. -/
def primaryPrompt : String := "> "

/-- The prompt for more of a form. -/
def continuationPrompt : String := ". "

/-- The pending text, empty if there is none, and the prompt for the next line. -/
structure Entry where
  pending : String := ""
  prompt : String := primaryPrompt
deriving DecidableEq

/-- What a line asks for. -/
inductive Request where
  /-- Nothing is to be done yet. -/
  | wait
  | help
  | exit
  | endOfInput
  | run (src : String)
deriving DecidableEq

/-- Whether a character may stand in a word of the shell. -/
def isWordChar (c : Char) : Bool := c.isAlphanum || c == '_'

/-- What a stripped line asks for if it is not part of a form: the words of the shell may be followed
by anything that does not continue the word. -/
def Request.ofLine? (line : String) : Option Request :=
  match line.toList with
  | [] => some .wait
  | '?' :: _ => some .help
  | cs => match String.ofList (cs.takeWhile isWordChar) with
      | "help" => some .help
      | "exit" => some .exit
      | "EOF" => some .endOfInput
      | _ => none

namespace Entry

/-- Adds a line to the form, which is run as soon as its parentheses balance. -/
def gather (e : Entry) (line : String) : Entry × Request :=
  let src := if e.pending = "" then line else e.pending ++ "\n" ++ line
  if 0 < balance src then (⟨src, continuationPrompt⟩, .wait)
  else ({}, .run src)

/-- Takes a line. It goes to the pending form as it is; without one it is stripped first. -/
def feed (e : Entry) (line : String) : Entry × Request :=
  if e.pending = "" then
    let stripped := Text.strip line
    match Request.ofLine? stripped with
    | some request => (e, request)
    | none => e.gather stripped
  else e.gather line

end Entry

end FormLang
