import ModulePack.Number.Binary64
import ModulePack.Text.Basic

/-!
# Decimal text of numbers

`Binary64.fixed` writes a number with a fixed count of places, rounding its exact value.
`Binary64.shortest` finds the fewest digits that are nearer to the number than to any other.
-/

namespace ModulePack

/-- `n · 10 ^ (-places)` with all its places. -/
def pointText (places n : Nat) : Text :=
  let whole := Text.ofNat (n / Nat.pow 10 places)
  let part := Text.ofNat (n % Nat.pow 10 places)
  if places = 0 then whole
  else whole ++ '.' :: List.replicate (places - part.length) '0' ++ part

namespace Binary64

/-- The number with `places` places; a half goes to the even neighbour. -/
def fixed (places : Nat) (x : Binary64) : Text :=
  pointText places (roundDiv (x.ratio.1 * Nat.pow 10 places) x.ratio.2)

/-- A decimal number `digits · 10 ^ exponent`. -/
structure Decimal where
  digits : Nat
  exponent : Int
  deriving DecidableEq

/-- The exponent of the greatest power of ten that is not above the positive `num / den`. -/
def floorLog10 (num den : Nat) : Int :=
  if den ≤ num then (Text.ofNat (num / den)).length - 1
  else
    let count := (Text.ofNat (den / num)).length
    if Nat.pow 10 (count - 1) * num = den then -(count - 1 : Nat) else -(count : Nat)

/-- The real numbers that round to a positive number, in quarters of its last binary place. -/
structure Interval where
  low : Nat
  high : Nat
  /-- Whether the ends belong to it. -/
  closed : Bool

/-- Half a place on either side, but a quarter downwards from a power of two, where the places
below are finer. The ends round to the number when its significand is even. -/
def interval (x : Binary64) : Interval where
  low := if x.significand = Nat.pow 2 52 ∧ minExponent < x.exponent then 4 * x.significand - 1
    else 4 * x.significand - 2
  high := 4 * x.significand + 2
  closed := x.significand % 2 = 0

/-- The nearer of the two multiples of `10 ^ grid` around a positive number, if it rounds to that
number. -/
def onGrid? (x : Binary64) (grid : Int) : Option Decimal :=
  let e := x.exponent - 2
  let unit := Nat.pow 2 e.toNat * Nat.pow 10 (-grid).toNat
  let step := Nat.pow 10 grid.toNat * Nat.pow 2 (-e).toNat
  let value := 4 * x.significand * unit
  let i := x.interval
  let inside := fun k =>
    if i.closed then i.low * unit ≤ k * step && k * step ≤ i.high * unit
    else i.low * unit < k * step && k * step < i.high * unit
  let k := value / step
  let below := inside k
  let above := inside (k + 1)
  if below && (!above || roundDiv value step = k) then some ⟨k, grid⟩
  else if above then some ⟨k + 1, grid⟩
  else none

/-- Seventeen digits tell any two numbers apart. -/
def maxDigits : Nat := 17

/-- The fewest digits that round to a positive number, and of those the nearest to it. -/
def shortest (x : Binary64) : Decimal :=
  let top := floorLog10 x.ratio.1 x.ratio.2
  ((List.range maxDigits).findSome? fun n : Nat => x.onGrid? (top - n)).getD ⟨x.significand, 0⟩

end Binary64

end ModulePack
