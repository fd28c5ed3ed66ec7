/-!
# `FormLang.Numeral` — whole numbers in decimal digits

## Contents
- `Numeral.maxDigits`: a numeral has at most 4300 digits, both when it is read and when it is
  written.
- `Numeral.value`, `Numeral.read?`: the number that a run of digits stands for.
- `Numeral.decimal`, `Numeral.decimal?`: the digits of a number, without and with the limit.
- `Numeral.bitLength`: the size of a number in binary.
-/

namespace FormLang.Numeral

/-- The greatest number of digits of a numeral. -/
def maxDigits : Nat := 4300

/-- The least magnitude that has too many digits. -/
def limit : Nat := Nat.pow 10 maxDigits

/-- The value of a decimal digit. -/
def digitValue (c : Char) : Nat := c.toNat - '0'.toNat

/-- The value of a run of digits, the most significant first. -/
def value (ds : List Char) : Nat := ds.foldl (fun n d => 10 * n + digitValue d) 0

/-- The value of a run of digits, unless the run is too long. Zeros in front count. -/
def read? (ds : List Char) : Option Nat :=
  if ds.length ≤ maxDigits then some (value ds) else none

/-- The number in decimal digits, a minus in front of a negative one. -/
def decimal (n : Int) : String :=
  if n < 0 then "-" ++ Nat.repr n.natAbs else Nat.repr n.natAbs

/-- The number in decimal digits, unless they are too many. The minus does not count. -/
def decimal? (n : Int) : Option String :=
  if n.natAbs < limit then some (decimal n) else none

/-- The number of binary digits of the magnitude, none for zero. -/
def bitLength (n : Int) : Nat := if n = 0 then 0 else n.natAbs.log2 + 1

end FormLang.Numeral
