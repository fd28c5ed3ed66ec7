import FormLang.Failure

/-!
# `FormLang.Tree` — programs as trees

## Contents
- `Tree`: a number, a text, a name, a list of trees, or the remark that stands where a malformed
  part was. A host may put any value in the place of a tree; it becomes `Tree.foreign`.
- `Tree.unterminated`, `Tree.tooDeep`: the remarks that the reader of tokens leaves.
- `Tree.render`: a tree as program text.
-/

namespace FormLang

/-- A program, or a part of one. -/
inductive Tree where
  | number (n : Int)
  | text (s : String)
  | name (s : String)
  | list (ts : List Tree)
  /-- What was wrong with the part that would stand here. -/
  | error (message : String)
  /-- Something that is no tree. -/
  | foreign (v : Value)

namespace Tree

/-- The remark in the place of a list without an end. -/
def unterminated : Tree := .error "unterminated list"

/-- The remark in the place of a list inside too many others. -/
def tooDeep : Tree := .error "nesting too deep"

/-! ## Equality -/

mutual

/-- Decides whether two trees are equal. -/
def decEq : (t u : Tree) → Decidable (t = u)
  | .number m, .number n =>
      if h : m = n then isTrue (by rw [h]) else isFalse fun e => h (Tree.number.inj e)
  | .text s, .text r =>
      if h : s = r then isTrue (by rw [h]) else isFalse fun e => h (Tree.text.inj e)
  | .name s, .name r =>
      if h : s = r then isTrue (by rw [h]) else isFalse fun e => h (Tree.name.inj e)
  | .list ts, .list us => match decEqAll ts us with
      | isTrue h => isTrue (by rw [h])
      | isFalse h => isFalse fun e => h (Tree.list.inj e)
  | .error s, .error r =>
      if h : s = r then isTrue (by rw [h]) else isFalse fun e => h (Tree.error.inj e)
  | .foreign v, .foreign w =>
      if h : v = w then isTrue (by rw [h]) else isFalse fun e => h (Tree.foreign.inj e)
  | .number _, .text _ | .number _, .name _ | .number _, .list _ | .number _, .error _
  | .number _, .foreign _ | .text _, .number _ | .text _, .name _ | .text _, .list _
  | .text _, .error _ | .text _, .foreign _ | .name _, .number _ | .name _, .text _
  | .name _, .list _ | .name _, .error _ | .name _, .foreign _ | .list _, .number _
  | .list _, .text _ | .list _, .name _ | .list _, .error _ | .list _, .foreign _
  | .error _, .number _ | .error _, .text _ | .error _, .name _ | .error _, .list _
  | .error _, .foreign _ | .foreign _, .number _ | .foreign _, .text _ | .foreign _, .name _
  | .foreign _, .list _ | .foreign _, .error _ => isFalse (by intro e; cases e)

/-- Decides whether two lists of trees are equal. -/
def decEqAll : (ts us : List Tree) → Decidable (ts = us)
  | [], [] => isTrue rfl
  | [], _ :: _ | _ :: _, [] => isFalse (by intro e; cases e)
  | t :: ts, u :: us => match decEq t u, decEqAll ts us with
      | isTrue h, isTrue hs => isTrue (by rw [h, hs])
      | isFalse h, _ => isFalse fun e => h (List.cons.inj e).1
      | _, isFalse hs => isFalse fun e => hs (List.cons.inj e).2

end

instance : DecidableEq Tree := decEq

/-! ## Rendering -/

mutual

/-- The tree as program text. The leftmost part that cannot be written decides the failure. -/
def render : Tree → Except Failure String
  | .number n => Numeral.digitsOrFail n
  | .text s => .ok ("\"" ++ s ++ "\"")
  | .name s => .ok s
  | .list ts => do
      let parts ← renderAll ts
      pure ("(" ++ " ".intercalate parts ++ ")")
  | .error message => .ok ("<error: " ++ message ++ ">")
  | .foreign v => .error (.ofForeign v)

/-- The texts of the trees of a list. -/
def renderAll : List Tree → Except Failure (List String)
  | [] => .ok []
  | t :: ts => do
      let part ← render t
      let parts ← renderAll ts
      pure (part :: parts)

end

end Tree

end FormLang
