/-!
# `FormLang.Text.Newline` — line ends

## Contents
- `unifyNewlines`: every way to end a line becomes a single newline.
- `newlines`: the number of newlines in a text.
- `trimLineEnd`: a line without the carriage returns and newlines at its end.
-/

namespace FormLang.Text

/-- A carriage return, with the newline after it if there is one, becomes a newline. -/
def unifyNewlines : List Char → List Char
  | [] => []
  | '\r' :: '\n' :: cs => '\n' :: unifyNewlines cs
  | '\r' :: cs => '\n' :: unifyNewlines cs
  | c :: cs => c :: unifyNewlines cs

/-- No carriage return is left. -/
theorem not_mem_unifyNewlines (cs : List Char) : '\r' ∉ unifyNewlines cs := by
  fun_induction unifyNewlines cs with
  | case1 => simp
  | case2 cs ih => simpa using ih
  | case3 cs _ ih => simpa using ih
  | case4 c cs _ hc ih => simpa using ⟨fun h => hc h.symm, ih⟩

/-- The number of newlines. -/
def newlines (cs : List Char) : Nat := cs.count '\n'

@[simp] theorem newlines_nil : newlines [] = 0 := rfl

@[simp] theorem newlines_append (a b : List Char) : newlines (a ++ b) = newlines a + newlines b := by
  simp [newlines]

/-- The line without the carriage returns and newlines at its end. -/
def trimLineEnd (s : String) : String :=
  String.ofList (s.toList.reverse.dropWhile fun c => c == '\r' || c == '\n').reverse

end FormLang.Text
