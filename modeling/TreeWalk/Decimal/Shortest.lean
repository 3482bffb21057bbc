import TreeWalk.Decimal.Binary64

namespace TreeWalk

structure Decimal where
  significand : Nat
  exponent : Int
deriving DecidableEq, Repr

inductive Tie where
  | up
  | even
deriving DecidableEq, Repr

namespace Decimal

-- A float, its interval and a grid over one denominator: the float lies at `value / unit` grid
-- steps, its interval reaches down by `below / unit` and up by `above / unit`.
structure Grid where
  value : Nat
  unit : Nat
  below : Nat
  above : Nat
  closed : Bool

-- The gap below a power of two is half the gap above it, except above the subnormal numbers.
def narrowBelow (mantissa : Nat) (exponent : Int) : Bool :=
  mantissa == Nat.pow 2 52 && exponent != Binary64.leastExponent

def grid (mantissa : Nat) (exponent : Int) (power : Int) : Grid :=
  let step := Nat.pow 2 exponent.toNat * Nat.pow 10 (-power).toNat
  { value := 4 * mantissa * step
    unit := 4 * (Nat.pow 2 (-exponent).toNat * Nat.pow 10 power.toNat)
    below := (if narrowBelow mantissa exponent then 1 else 2) * step
    above := 2 * step
    closed := mantissa % 2 == 0 }

namespace Grid

def reaches (g : Grid) (distance bound : Nat) : Bool :=
  if g.closed then distance ≤ bound else distance < bound

def nearest? (g : Grid) (tie : Tie) : Option Nat :=
  let low := g.value / g.unit
  let down := g.value % g.unit
  let up := g.unit - down
  match g.reaches down g.below, g.reaches up g.above with
  | true, true =>
      if down < up then some low
      else if up < down then some (low + 1)
      else match tie with
        | .up => some (low + 1)
        | .even => some (low + low % 2)
  | true, false => some low
  | false, true => some (low + 1)
  | false, false => none

end Grid

-- An exponent of ten above the number: its binary exponent times the logarithm of two.
def powerAbove (mantissa : Nat) (exponent : Int) : Int :=
  (mantissa.log2 + exponent) * 1233 / 4096 + 2

-- Tries grid after grid, each ten times finer, down to seventeen digits and more.
def coarsest (tie : Tie) (mantissa : Nat) (exponent : Int) : Nat → Int → Decimal
  | 0, power => ⟨0, power⟩
  | tries + 1, power =>
      match (grid mantissa exponent power).nearest? tie with
      | some significand => ⟨significand, power⟩
      | none => coarsest tie mantissa exponent tries (power - 1)

def shortest (tie : Tie) (mantissa : Nat) (exponent : Int) : Decimal :=
  if mantissa = 0 then ⟨0, 0⟩
  else coarsest tie mantissa exponent 24 (powerAbove mantissa exponent)

end Decimal

end TreeWalk
