import TreeWalk.Decimal.Shortest

namespace TreeWalk

namespace Decimal

def digits (d : Decimal) : String :=
  d.significand.repr

def zeros (count : Nat) : String :=
  "".pushn '0' count

def splitText (text : String) (count : Nat) : String × String :=
  let (front, back) := text.toList.splitAt count
  (String.ofList front, String.ofList back)

def positional (d : Decimal) : String :=
  match d.exponent with
  | .ofNat up => d.digits ++ zeros up
  | .negSucc down =>
      let places := down + 1
      let count := d.digits.length
      if places < count then
        let (whole, fraction) := splitText d.digits (count - places)
        whole ++ "." ++ fraction
      else
        "0." ++ zeros (places - count) ++ d.digits

def scientific (d : Decimal) : String :=
  let (lead, fraction) := splitText d.digits 1
  let power := d.exponent + fraction.length
  let mantissa := if fraction.isEmpty then lead else lead ++ "." ++ fraction
  let sign := if power < 0 then "-" else "+"
  mantissa ++ "e" ++ sign ++ power.natAbs.repr

end Decimal

-- How a whole number is written: below `bound`, where there is one, with all its digits and then
-- `suffix`. Other numbers take their shortest digits.
structure WholeStyle where
  bound : Option Nat
  suffix : String
  signedZero : Bool

namespace WholeStyle

def covers (style : WholeStyle) (n : Nat) : Bool :=
  match style.bound with
  | some bound => n < bound
  | none => true

end WholeStyle

namespace Binary64

def signed (negative : Bool) (text : String) : String :=
  if negative then "-" ++ text else text

def positional : Binary64 → String
  | .finite negative mantissa exponent =>
      signed negative (Decimal.shortest .up mantissa exponent).positional
  | .infinite negative => signed negative "inf"
  | .nan => "NaN"

def text (style : WholeStyle) (x : Binary64) : String :=
  match x.natural? with
  | some n =>
      if style.covers n then
        signed (x.isNegative && (style.signedZero || n != 0)) (n.repr ++ style.suffix)
      else
        x.positional
  | none => x.positional

-- The JSON number: positional with at least one decimal place from `1e-5` up to below `1e16`,
-- scientific outside; a tie goes to the even digit. JSON has no infinities and no NaN.
def json : Binary64 → String
  | .finite negative mantissa exponent =>
      let d := Decimal.shortest .even mantissa exponent
      let power := d.exponent + d.digits.length - 1
      signed negative <|
        if d.significand = 0 then "0.0"
        else if power < -5 || 15 < power then d.scientific
        else if d.exponent < 0 then d.positional
        else d.positional ++ ".0"
  | .infinite _ | .nan => "null"

end Binary64

end TreeWalk
