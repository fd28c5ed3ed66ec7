/-!
# `FormLang.Binary64` — double-precision numbers, exactly

A double is not-a-number, or a sign and a magnitude. Magnitudes are held by their **rank**: zero has
rank 0, the least positive magnitude rank 1, and so on in ascending order up to infinity. Every
finite magnitude is a whole multiple of the least positive one, 2^-1074, so arithmetic is exact
arithmetic on whole numbers followed by one rounding.

## Contents
- `Binary64`: the type, with `zero`, `infinity`, `isZero`, `isInfinite`.
- `units`: a magnitude counted in units of 2^-1074.
- `roundHalfEven`, `nearestRank`: a quotient to the nearest whole number, or to the nearest
  magnitude; of two equally near the even one.
- `ofInt?`, `quotient?`: whole numbers and their quotients, unless they are too large.
- `add`, `sub`, `mul`, `div`: the operations of the standard; too large a result is infinite.
- `toInt?`: the value of a double that is whole.
-/

namespace FormLang

/-- The rank of infinity among the magnitudes. -/
def infinityRank : Nat := 2047 * Nat.pow 2 52

/-- A double-precision number. -/
inductive Binary64 where
  | nan
  | signed (negative : Bool) (rank : Fin (infinityRank + 1))
deriving DecidableEq

namespace Binary64

/-! ## Magnitudes -/

/-- The power of two, in units of 2^-1074, by which the digits of a magnitude are scaled. -/
def shift (rank : Nat) : Nat := rank / Nat.pow 2 52 - 1

/-- The binary digits of a magnitude as a whole number. -/
def significand (rank : Nat) : Nat :=
  if rank < Nat.pow 2 52 then rank else Nat.pow 2 52 + rank % Nat.pow 2 52

/-- A magnitude in units of 2^-1074. At the rank of infinity, what a larger exponent range would
have there. -/
def units (rank : Nat) : Nat := significand rank * Nat.pow 2 (shift rank)

/-- How many units make one. -/
def unitsPerOne : Nat := Nat.pow 2 1074

/-- The quotient to the nearest whole number; a half goes to the even neighbour. -/
def roundHalfEven (num den : Nat) : Nat :=
  let q := num / den
  let r := num % den
  if den < 2 * r || (2 * r == den && q % 2 == 1) then q + 1 else q

/-- The rank of the magnitude nearest to `num / den` units; of two equally near the even rank. A
quotient that rounds beyond the greatest finite magnitude goes to infinity. -/
def nearestRank (num den : Nat) : Nat :=
  -- with `s` bits dropped, 53 are left at most
  let s := (num / den).log2 - 52
  -- rounding up to a power of two carries into the exponent, and this is the rank wanted then
  min infinityRank (roundHalfEven num (den * Nat.pow 2 s) + s * Nat.pow 2 52)

theorem nearestRank_le (num den : Nat) : nearestRank num den ≤ infinityRank := Nat.min_le_left ..

/-- The double with the given sign that is nearest to `num / den` units. -/
def ofUnits (negative : Bool) (num den : Nat) : Binary64 :=
  .signed negative ⟨nearestRank num den, Nat.lt_succ_of_le (nearestRank_le num den)⟩

/-- Zero of either sign. -/
def zero (negative : Bool) : Binary64 := .signed negative 0

/-- Infinity of either sign. -/
def infinity (negative : Bool) : Binary64 := .signed negative (Fin.last infinityRank)

/-- Whether the number is zero, of either sign. -/
def isZero : Binary64 → Bool
  | nan => false
  | signed _ r => r.val == 0

/-- Whether the number is an infinity. -/
def isInfinite : Binary64 → Bool
  | nan => false
  | signed _ r => r.val == infinityRank

/-- A finite number in units, with its sign. -/
def signedUnits (negative : Bool) (rank : Nat) : Int :=
  if negative then -(units rank : Int) else units rank

/-! ## Whole numbers -/

/-- The double itself, unless it is infinite. -/
def finite? (x : Binary64) : Option Binary64 := if x.isInfinite then none else some x

/-- The double nearest to a whole number, unless it is beyond the finite ones. -/
def ofInt? (n : Int) : Option Binary64 :=
  (ofUnits (decide (n < 0)) (n.natAbs * unitsPerOne) 1).finite?

/-- The double nearest to the quotient of two whole numbers, unless it is beyond the finite ones.
The quotient is negative when one of the two is, also when it is zero. -/
def quotient? (a b : Int) : Option Binary64 :=
  (ofUnits (decide (a < 0) ^^ decide (b < 0)) (a.natAbs * unitsPerOne) b.natAbs).finite?

/-- The value of a double that is a whole number. -/
def toInt? : Binary64 → Option Int
  | nan => none
  | signed s r =>
      if r.val = infinityRank then none
      else if units r % unitsPerOne = 0 then some (signedUnits s r / unitsPerOne)
      else none

/-! ## Arithmetic -/

/-- The number with the other sign. -/
def neg : Binary64 → Binary64
  | nan => nan
  | signed s r => signed (!s) r

/-- The sum. Infinities of opposite signs have none; an exact zero is negative only if both terms
are. -/
def add : Binary64 → Binary64 → Binary64
  | nan, _ => nan
  | _, nan => nan
  | signed s a, signed t b =>
      if a.val = infinityRank then
        if b.val = infinityRank && s != t then nan else signed s a
      else if b.val = infinityRank then signed t b
      else
        -- sums are multiples of the unit, so only their size can call for rounding
        let sum := signedUnits s a + signedUnits t b
        if sum = 0 then zero (s && t) else ofUnits (decide (sum < 0)) sum.natAbs 1

/-- The difference. -/
def sub (x y : Binary64) : Binary64 := add x (neg y)

/-- The product. Zero times infinity has none. -/
def mul : Binary64 → Binary64 → Binary64
  | nan, _ => nan
  | _, nan => nan
  | signed s a, signed t b =>
      if a.val = infinityRank || b.val = infinityRank then
        if a.val = 0 || b.val = 0 then nan else infinity (s ^^ t)
      else ofUnits (s ^^ t) (units a * units b) unitsPerOne

/-- The quotient. Two zeros and two infinities have none; any other number divided by zero is
infinite, and divided by infinity zero. -/
def div : Binary64 → Binary64 → Binary64
  | nan, _ => nan
  | _, nan => nan
  | signed s a, signed t b =>
      if a.val = infinityRank then
        if b.val = infinityRank then nan else infinity (s ^^ t)
      else if b.val = infinityRank then zero (s ^^ t)
      else if b.val = 0 then
        if a.val = 0 then nan else infinity (s ^^ t)
      else ofUnits (s ^^ t) (units a * unitsPerOne) (units b)

end Binary64

end FormLang
