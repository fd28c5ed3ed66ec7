import FormLang.Number
import FormLang.Text.Quoted

/-!
# `FormLang.Value` — what a program computes

## Contents
- `Value`: a number, a text, or a list of values. Two more, `flag` and `absent`, a program never
  makes; a host can bind them to a name, and they are neither numbers nor texts.
- `Value.isNumber`, `Value.isScalar`, `Value.unwrap`.
- `Value.display`: the text of a value as a program shows it. Lists are written without brackets,
  lists inside lists with.
- `Value.literal?`: the text of a value as a literal, with quotes and brackets.
-/

namespace FormLang

/-- A value. -/
inductive Value where
  | number (n : Number)
  | text (s : String)
  | list (vs : List Value)
  | flag (b : Bool)
  | absent

namespace Value

/-- A whole number as a value. -/
@[match_pattern] abbrev int (n : Int) : Value := .number (.int n)

/-- A double as a value. -/
@[match_pattern] abbrev float (x : Binary64) : Value := .number (.float x)

/-! ## Equality -/

mutual

/-- Decides whether two values are equal. -/
def decEq : (v w : Value) → Decidable (v = w)
  | .number m, .number n =>
      if h : m = n then isTrue (by rw [h]) else isFalse fun e => h (Value.number.inj e)
  | .text s, .text t =>
      if h : s = t then isTrue (by rw [h]) else isFalse fun e => h (Value.text.inj e)
  | .list vs, .list ws => match decEqAll vs ws with
      | isTrue h => isTrue (by rw [h])
      | isFalse h => isFalse fun e => h (Value.list.inj e)
  | .flag a, .flag b =>
      if h : a = b then isTrue (by rw [h]) else isFalse fun e => h (Value.flag.inj e)
  | .absent, .absent => isTrue rfl
  | .number _, .text _ | .number _, .list _ | .number _, .flag _ | .number _, .absent
  | .text _, .number _ | .text _, .list _ | .text _, .flag _ | .text _, .absent
  | .list _, .number _ | .list _, .text _ | .list _, .flag _ | .list _, .absent
  | .flag _, .number _ | .flag _, .text _ | .flag _, .list _ | .flag _, .absent
  | .absent, .number _ | .absent, .text _ | .absent, .list _ | .absent, .flag _ =>
      isFalse (by intro e; cases e)

/-- Decides whether two lists of values are equal. -/
def decEqAll : (vs ws : List Value) → Decidable (vs = ws)
  | [], [] => isTrue rfl
  | [], _ :: _ | _ :: _, [] => isFalse (by intro e; cases e)
  | v :: vs, w :: ws => match decEq v w, decEqAll vs ws with
      | isTrue h, isTrue hs => isTrue (by rw [h, hs])
      | isFalse h, _ => isFalse fun e => h (List.cons.inj e).1
      | _, isFalse hs => isFalse fun e => hs (List.cons.inj e).2

end

instance : DecidableEq Value := decEq

/-! ## Kinds of value -/

/-- Whether the value is a number. -/
def isNumber : Value → Bool
  | .number _ => true
  | _ => false

/-- Whether the value is a text. -/
def isText : Value → Bool
  | .text _ => true
  | _ => false

/-- Whether the value is a number or a text. -/
def isScalar (v : Value) : Bool := v.isNumber || v.isText

/-- Whether the value is the number zero. -/
def isZero : Value → Bool
  | .number n => n.isZero
  | _ => false

/-- The only element of a list of one, and any other value as it is. -/
def unwrap : Value → Value
  | .list [v] => v
  | v => v

/-- The elements of a list, and any other value alone. -/
def elements : Value → List Value
  | .list vs => vs
  | v => [v]

/-! ## Display -/

mutual

/-- The text of a value; a list stands in brackets if it is nested in another. -/
def displayIn (nested : Bool) : Value → String
  | .number n => n.display
  | .text s => s
  | .list vs =>
      let body := " ".intercalate (displayAll vs)
      if nested then "(" ++ body ++ ")" else body
  | .flag b => if b then "True" else "False"
  | .absent => "None"

/-- The texts of the elements of a list. -/
def displayAll : List Value → List String
  | [] => []
  | v :: vs => displayIn true v :: displayAll vs

end

/-- The text of a value as a program shows it. -/
def display (v : Value) : String := displayIn false v

/-! ## Literals -/

mutual

/-- The text of a value as a literal, unless a number in it has too many digits. -/
def literal? : Value → Option String
  | .number n => n.literal?
  | .text s => some (Text.quoted s)
  | .list vs => (literals? vs).map fun texts => "[" ++ ", ".intercalate texts ++ "]"
  | .flag b => some (if b then "True" else "False")
  | .absent => some "None"

/-- The literals of the elements of a list. -/
def literals? : List Value → Option (List String)
  | [] => some []
  | v :: vs => do
      let text ← literal? v
      let texts ← literals? vs
      pure (text :: texts)

end

end Value

end FormLang
