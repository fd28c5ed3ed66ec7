import FormLang.Value

/-!
# `FormLang.Failure` — requests that have no answer

Whatever a program does wrong is reported and evaluation goes on. Only what a host can build by
hand fails outright: something that is no tree in the place of one, and a number of too many digits
where its digits are needed.

## Contents
- `Failure`, `Failure.message`.
- `Failure.ofForeign`: the failure that a value in the place of a tree causes.
-/

namespace FormLang

/-- Why a request has no answer. -/
inductive Failure where
  /-- Something that is no tree, given by its literal, stands where a tree is needed. -/
  | notATree (literal : String)
  /-- A number has too many digits to be written out. -/
  | tooManyDigits
deriving DecidableEq, Repr

namespace Failure

/-- The wording of a failure. -/
def message : Failure → String
  | notATree literal => "not an expression: " ++ literal
  | tooManyDigits =>
      "Exceeds the limit (" ++ Nat.repr Numeral.maxDigits ++ " digits) for integer string conversion; "
        ++ "use sys.set_int_max_str_digits() to increase the limit"

/-- The failure caused by a value where a tree is needed. To name the value its literal is needed. -/
def ofForeign (v : Value) : Failure :=
  match v.literal? with
  | some literal => notATree literal
  | none => tooManyDigits

end Failure

/-- The digits of a whole number, where a number of too many digits is a failure. -/
def Numeral.digitsOrFail (n : Int) : Except Failure String :=
  match Numeral.decimal? n with
  | some ds => .ok ds
  | none => .error .tooManyDigits

end FormLang
