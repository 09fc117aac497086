/-!
# Binary64 numbers

The finite numbers of the 64-bit binary format, without sign, as exact values `significand · 2 ^
exponent`. Every operation is the exact one followed by `ofRatio?`, which rounds a quotient to the
nearest such number, a half to the even neighbour. `roundDiv_near` says that rounding a quotient
moves it by half a unit at most.
-/

namespace ModulePack

/-- The integer nearest to `num / den`; a half goes to the even neighbour. -/
def roundDiv (num den : Nat) : Nat :=
  let q := num / den
  let r := num % den
  if 2 * r < den ∨ 2 * r = den ∧ q % 2 = 0 then q else q + 1

theorem roundDiv_near (num : Nat) {den : Nat} (h : 0 < den) :
    2 * num ≤ 2 * (roundDiv num den * den) + den ∧
      2 * (roundDiv num den * den) ≤ 2 * num + den := by
  have hdiv := Nat.div_add_mod num den
  have hmod := Nat.mod_lt num h
  have hcomm : num / den * den = den * (num / den) := Nat.mul_comm ..
  unfold roundDiv
  simp only
  split
  · omega
  · have hsucc : (num / den + 1) * den = den * (num / den) + den := by
      rw [Nat.add_mul, Nat.one_mul, hcomm]
    omega

structure Binary64 where
  significand : Nat
  exponent : Int
  deriving DecidableEq

namespace Binary64

/-- The least exponent, at which the smallest numbers lie. -/
def minExponent : Int := -1074

/-- The exponent of the largest numbers. -/
def maxExponent : Int := 971

def zero : Binary64 := ⟨0, minExponent⟩

/-- Numerator and denominator of `num / den · 2 ^ (-e)`. -/
def scaled (e : Int) (num den : Nat) : Nat × Nat :=
  if 0 ≤ e then (num, den * Nat.pow 2 e.toNat) else (num * Nat.pow 2 (-e).toNat, den)

/-- The exponent of the greatest power of two that is not above the positive `num / den`. -/
def floorLog2 (num den : Nat) : Int :=
  let e : Int := num.log2 - den.log2
  let (n, d) := scaled e num den
  if n < d then e - 1 else e

/-- The number nearest to `num / den`; none where it is too large. -/
def ofRatio? (num den : Nat) : Option Binary64 :=
  if num = 0 then some zero
  else
    let e := max (floorLog2 num den - 52) minExponent
    let (n, d) := scaled e num den
    let m := roundDiv n d
    let x : Binary64 := if m = Nat.pow 2 53 then ⟨Nat.pow 2 52, e + 1⟩ else ⟨m, e⟩
    if x.exponent ≤ maxExponent then some x else none

/-- The exact value as numerator and denominator. -/
def ratio (x : Binary64) : Nat × Nat :=
  if 0 ≤ x.exponent then (x.significand * Nat.pow 2 x.exponent.toNat, 1)
  else (x.significand, Nat.pow 2 (-x.exponent).toNat)

def ofNat? (n : Nat) : Option Binary64 := ofRatio? n 1

def add? (x y : Binary64) : Option Binary64 :=
  ofRatio? (x.ratio.1 * y.ratio.2 + y.ratio.1 * x.ratio.2) (x.ratio.2 * y.ratio.2)

def mul? (x y : Binary64) : Option Binary64 :=
  ofRatio? (x.ratio.1 * y.ratio.1) (x.ratio.2 * y.ratio.2)

/-- The quotient of `x` by a number that is not zero. -/
def div? (x y : Binary64) : Option Binary64 :=
  ofRatio? (x.ratio.1 * y.ratio.2) (x.ratio.2 * y.ratio.1)

/-- The greatest power of ten below the largest number. -/
def maxTenPower : Nat := 308

/-- `x` divided by ten to the `k`, in steps of `maxTenPower` while that is too much at once. -/
def divTenPower? (x : Binary64) (k : Nat) : Option Binary64 :=
  if k ≤ maxTenPower then do x.div? (← ofNat? (Nat.pow 10 k))
  else if x = zero then some zero
  else do divTenPower? (← x.div? (← ofNat? (Nat.pow 10 maxTenPower))) (k - maxTenPower)
termination_by k
decreasing_by simp only [maxTenPower] at *; omega

/-- The number written `digits · 10 ^ e`: the digits are rounded first, then one multiplication or
division by a rounded power of ten follows. The result need not be the nearest number. -/
def ofDecimal? (digits : Nat) (e : Int) : Option Binary64 := do
  let x ← ofNat? digits
  if e < 0 then x.divTenPower? (-e).toNat
  else if e ≤ maxTenPower then x.mul? (← ofNat? (Nat.pow 10 e.toNat))
  else if x = zero then some zero
  else none

end Binary64

end ModulePack
