namespace TreeWalk

inductive Binary64 where
  | finite (negative : Bool) (mantissa : Nat) (exponent : Int)
  | infinite (negative : Bool)
  | nan
deriving DecidableEq, Repr

namespace Binary64

def leastExponent : Int := -1074

def ofBits (bits : Nat) : Binary64 :=
  let negative := bits / Nat.pow 2 63 % 2 == 1
  let scale : Nat := bits / Nat.pow 2 52 % Nat.pow 2 11
  let fraction := bits % Nat.pow 2 52
  if scale = 2047 then
    if fraction = 0 then .infinite negative else .nan
  else if scale = 0 then
    .finite negative fraction leastExponent
  else
    .finite negative (Nat.pow 2 52 + fraction) (leastExponent + (scale - 1 : Nat))

def ofFloat (x : Float) : Binary64 :=
  ofBits x.toBits.toNat

def natural? : Binary64 → Option Nat
  | .finite _ mantissa (.ofNat up) => some (mantissa * Nat.pow 2 up)
  | .finite _ mantissa (.negSucc down) =>
      let unit := Nat.pow 2 (down + 1)
      if mantissa % unit = 0 then some (mantissa / unit) else none
  | .infinite _ | .nan => none

def isNegative : Binary64 → Bool
  | .finite negative _ _ | .infinite negative => negative
  | .nan => false

def isEven (x : Binary64) : Bool :=
  match x.natural? with
  | some n => n % 2 == 0
  | none => false

end Binary64

end TreeWalk
