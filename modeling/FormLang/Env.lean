import FormLang.Value

/-!
# `FormLang.Env` — the variables of a session

Variables are kept in the order of their names, each name once if they are bound one at a time.

## Contents
- `Env`, `Env.get?`, `Env.bind`, `Env.ofList`.
- `get?_bind_self`, `get?_bind_of_ne`: what is found after a binding.
-/

namespace FormLang

/-- Names and the values bound to them, in ascending order of names. -/
structure Env where
  bindings : List (String × Value) := []
deriving DecidableEq

namespace Env

/-- No variables. -/
def empty : Env := {}

/-- The value under a name among some bindings. -/
def find? (x : String) : List (String × Value) → Option Value
  | [] => none
  | (y, v) :: rest => if x = y then some v else find? x rest

/-- The bindings with the name bound anew, before the first greater name if it was not bound. -/
def insert (x : String) (v : Value) : List (String × Value) → List (String × Value)
  | [] => [(x, v)]
  | (y, w) :: rest =>
      if x = y then (x, v) :: rest
      else if x < y then (x, v) :: (y, w) :: rest
      else (y, w) :: insert x v rest

/-- The value of a variable, if it is bound. -/
def get? (e : Env) (x : String) : Option Value := find? x e.bindings

/-- The variables with one more binding, which replaces one of the same name. -/
def bind (e : Env) (x : String) (v : Value) : Env := ⟨insert x v e.bindings⟩

/-- The variables bound one after the other by a list of names and values. -/
def ofList (bs : List (String × Value)) : Env := bs.foldl (fun e b => e.bind b.1 b.2) empty

@[simp] theorem get?_empty (x : String) : empty.get? x = none := rfl

@[simp] theorem get?_bind_self (e : Env) (x : String) (v : Value) : (e.bind x v).get? x = some v := by
  obtain ⟨bs⟩ := e
  simp only [get?, bind]
  induction bs with
  | nil => simp [insert, find?]
  | cons b rest ih =>
      obtain ⟨y, w⟩ := b
      simp only [insert]
      by_cases h : x = y
      · simp [h, find?]
      · by_cases hlt : x < y
        · simp [h, hlt, find?]
        · simpa [h, hlt, find?] using ih

theorem get?_bind_of_ne (e : Env) {x y : String} (v : Value) (h : y ≠ x) :
    (e.bind x v).get? y = e.get? y := by
  obtain ⟨bs⟩ := e
  simp only [get?, bind]
  induction bs with
  | nil => simp [insert, find?, h]
  | cons b rest ih =>
      obtain ⟨z, w⟩ := b
      simp only [insert]
      by_cases hx : x = z
      · subst hx; simp [find?, h]
      · by_cases hlt : x < z
        · simp [hx, hlt, find?, h]
        · by_cases hy : y = z
          · simp [hx, hlt, find?, hy]
          · simpa [hx, hlt, find?, hy] using ih

end Env

end FormLang
