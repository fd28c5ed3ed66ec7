import FormLang.Binary64.Decimal

/-!
# `FormLang.Number` — the numbers of a program

A number is a whole number of any size or a double. Programs write whole numbers only; doubles
arise from division.

## Contents
- `Number`, `Number.isZero`, `Number.toBinary64?`.
- `Number.add?`, `sub?`, `mul?`, `div?`: arithmetic. Whole numbers are exact except in division,
  which gives a double. Where a whole number meets a double it is converted first. There is no
  result when a whole number or a quotient of two is beyond the finite doubles; operations on two
  doubles always have one, possibly infinite or not-a-number.
- `Number.display`: a whole value in decimal digits, whichever kind it is.
-/

namespace FormLang

/-- A whole number or a double. -/
inductive Number where
  | int (n : Int)
  | float (x : Binary64)
deriving DecidableEq

namespace Number

/-- Whether the number is zero, of either kind and sign. -/
def isZero : Number → Bool
  | int n => n == 0
  | float x => x.isZero

/-- The number as a double, unless it is too large for one. -/
def toBinary64? : Number → Option Binary64
  | int n => Binary64.ofInt? n
  | float x => some x

/-- Applies an operation on doubles to two numbers. -/
def onDoubles (f : Binary64 → Binary64 → Binary64) (a b : Number) : Option Number := do
  let x ← a.toBinary64?
  let y ← b.toBinary64?
  pure (float (f x y))

/-- The sum. -/
def add? : Number → Number → Option Number
  | int m, int n => some (int (m + n))
  | a, b => onDoubles Binary64.add a b

/-- The difference. -/
def sub? : Number → Number → Option Number
  | int m, int n => some (int (m - n))
  | a, b => onDoubles Binary64.sub a b

/-- The product. -/
def mul? : Number → Number → Option Number
  | int m, int n => some (int (m * n))
  | a, b => onDoubles Binary64.mul a b

/-- The quotient, rounded once. -/
def div? : Number → Number → Option Number
  | int m, int n => (Binary64.quotient? m n).map float
  | a, b => onDoubles Binary64.div a b

/-- A whole number in decimal digits; where these are too many, its size in binary digits. -/
def displayInt (n : Int) : String :=
  (Numeral.decimal? n).getD ("<" ++ Nat.repr (Numeral.bitLength n) ++ "-bit integer>")

/-- The number as a program shows it: a double that is whole is shown as a whole number. -/
def display : Number → String
  | int n => displayInt n
  | float x => match x.toInt? with
      | some n => Numeral.decimal n
      | none => x.text

/-- The number as a literal, which tells the two kinds apart, unless it has too many digits. -/
def literal? : Number → Option String
  | int n => Numeral.decimal? n
  | float x => some x.text

end Number

end FormLang
