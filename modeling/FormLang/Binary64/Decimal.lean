import FormLang.Binary64.Basic
import FormLang.Numeral

/-!
# `FormLang.Binary64.Decimal` — doubles in decimal notation

## Contents
- `Decimal`: digits and a power of ten.
- `shortest`: of the decimals that round to a magnitude, one with the fewest digits; of these the
  nearest.
- `Decimal.layout`: positional notation while the exponent of the leading digit is at least -4 and
  below 16, otherwise an exponent of at least two digits with its sign.
- `Binary64.text`: the decimal text of a double.
- `Binary64.ofText?`: the double that a decimal text denotes.

Every finite double is a whole multiple of 10^-1074. The search for the fewest digits therefore
takes place among whole numbers: a candidate is a multiple of a power of ten, and it is accepted if
it lies between the midpoints to the two neighbouring magnitudes.
-/

namespace FormLang

/-- The number `digits * 10 ^ exponent`. -/
structure Decimal where
  digits : Nat
  exponent : Int
deriving DecidableEq, Repr

namespace Binary64

/-- A magnitude as a multiple of 10^-1074. -/
def decimalUnits (rank : Nat) : Nat := units rank * Nat.pow 5 1074

/-- Whether a multiple of 10^-1074 rounds to the magnitude of the given positive rank: it lies
between the midpoints to the neighbours, and a midpoint itself belongs to the even rank. -/
def roundsTo (rank candidate : Nat) : Bool :=
  let low := decimalUnits (rank - 1) + decimalUnits rank
  let high := decimalUnits rank + decimalUnits (rank + 1)
  let c := 2 * candidate
  if rank % 2 == 0 then low ≤ c && c ≤ high else low < c && c < high

/-- The point of the grid with step `10 ^ k` that rounds to the magnitude, as a count of steps. Of
two such points the nearer one, and the even one if they are equally near. -/
def gridPoint? (rank k : Nat) : Option Nat :=
  let x := decimalUnits rank
  let step := Nat.pow 10 k
  let below := x / step
  let r := x % step
  match roundsTo rank (below * step), roundsTo rank ((below + 1) * step) with
  | true, true =>
      some (if 2 * r < step || (2 * r == step && below % 2 == 0) then below else below + 1)
  | true, false => some below
  | false, true => some (below + 1)
  | false, false => none

/-- The same number without zeros at the end of its digits. -/
def trimZeros (d : Decimal) : Decimal :=
  let ds := Nat.toDigits 10 d.digits
  let kept := (ds.reverse.dropWhile (· == '0')).reverse
  ⟨Numeral.value kept, d.exponent + ((ds.length - kept.length : Nat) : Int)⟩

/-- The decimal with the fewest digits that rounds to the magnitude of the given positive rank: the
first grid, from coarse to fine, that has a point for it. -/
def shortest (rank : Nat) : Decimal :=
  let x := decimalUnits rank
  let size := (Nat.repr x).length
  -- seventeen digits tell all doubles apart, so the last grid has a point
  let found := (List.range 17).findSome? fun n =>
    let k := size - (n + 1)
    (gridPoint? rank k).map fun p => (⟨p, (k : Int) - 1074⟩ : Decimal)
  trimZeros (found.getD ⟨x, -1074⟩)

end Binary64

namespace Decimal

/-- The exponent with its sign and at least two digits. -/
def exponentText (e : Int) : String :=
  let ds := Nat.repr e.natAbs
  (if e < 0 then "-" else "+") ++ (if ds.length < 2 then "0" ++ ds else ds)

/-- The text of a positive decimal: positional if the exponent of the leading digit is at least -4
and below 16, with at least one digit on either side of the point, and scientific otherwise. -/
def layout (d : Decimal) : String :=
  let ds := Nat.toDigits 10 d.digits
  let lead := d.exponent + ds.length - 1
  if -4 ≤ lead && lead < 16 then
    if lead < 0 then
      String.ofList ('0' :: '.' :: (List.replicate (-lead - 1).toNat '0' ++ ds))
    else
      let whole := (lead + 1).toNat
      let front := ds.take whole ++ List.replicate (whole - ds.length) '0'
      let back := if ds.length ≤ whole then ['0'] else ds.drop whole
      String.ofList (front ++ '.' :: back)
  else
    let mantissa := match ds with
      | [] => []
      | [c] => [c]
      | c :: cs => c :: '.' :: cs
    String.ofList mantissa ++ "e" ++ exponentText lead

end Decimal

namespace Binary64

/-- The decimal text of a double. Not-a-number has no sign. -/
def text : Binary64 → String
  | nan => "nan"
  | signed s r =>
      let magnitude :=
        if r.val = infinityRank then "inf"
        else if r.val = 0 then "0.0"
        else (shortest r).layout
      if s then "-" ++ magnitude else magnitude

/-! ## Reading -/

/-- The double nearest to a decimal. Exponents far outside the range of doubles are answered
without computing the power of ten. -/
def ofDecimal (negative : Bool) (d : Decimal) : Binary64 :=
  let size : Int := (Nat.repr d.digits).length
  -- below 10^-400 all is zero, and above 10^400 all is infinite
  if d.digits = 0 || d.exponent + size < -400 then zero negative
  else if 400 < d.exponent then infinity negative
  else if 0 ≤ d.exponent then
    ofUnits negative (d.digits * Nat.pow 10 d.exponent.toNat * unitsPerOne) 1
  else ofUnits negative (d.digits * unitsPerOne) (Nat.pow 10 (-d.exponent).toNat)

/-- The number that a run of decimal digits stands for. -/
def natOfDigits? (ds : List Char) : Option Nat :=
  if ds.all Char.isDigit && !ds.isEmpty then some (Numeral.value ds) else none

/-- A whole number with an optional sign. -/
def intOfDigits? : List Char → Option Int
  | '-' :: ds => (natOfDigits? ds).map fun n => -(n : Int)
  | '+' :: ds => (natOfDigits? ds).map fun n => (n : Int)
  | ds => (natOfDigits? ds).map fun n => (n : Int)

/-- A decimal without a sign: digits with an optional point, then an optional exponent after `e`. -/
def decimalOfChars? (cs : List Char) : Option Decimal := do
  let isMark := fun c : Char => c == 'e' || c == 'E'
  let mantissa := cs.takeWhile fun c => !isMark c
  let exponent ← match cs.dropWhile fun c => !isMark c with
    | [] => some 0
    | _ :: ds => intOfDigits? ds
  let whole := mantissa.takeWhile (· != '.')
  let fraction := (mantissa.dropWhile (· != '.')).drop 1
  let digits ← natOfDigits? (whole ++ fraction)
  pure ⟨digits, exponent - fraction.length⟩

/-- The double that a text denotes: a decimal, `inf`, `infinity` or `nan` in any case, after an
optional sign. -/
def ofText? (s : String) : Option Binary64 :=
  let ofMagnitude (negative : Bool) (cs : List Char) : Option Binary64 :=
    let word := String.ofList (cs.map Char.toLower)
    if word = "nan" then some nan
    else if word = "inf" || word = "infinity" then some (infinity negative)
    else (decimalOfChars? cs).map (ofDecimal negative)
  match s.toList with
  | '-' :: cs => ofMagnitude true cs
  | '+' :: cs => ofMagnitude false cs
  | cs => ofMagnitude false cs

end Binary64

end FormLang
