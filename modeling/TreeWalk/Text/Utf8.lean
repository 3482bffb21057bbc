namespace TreeWalk.Text.Utf8

-- A sequence that has begun: its bits so far, the octets it still needs, and the bounds of the
-- next one.
structure Pending where
  bits : Nat
  owed : Nat
  low : Nat
  high : Nat
deriving DecidableEq, Repr

-- The well-formed sequences of more than one octet. The second octet has its own bounds where
-- longer spellings, surrogates and numbers above `0x10FFFF` would begin.
def begin? (octet : Nat) : Option Pending :=
  if 0xC2 ≤ octet ∧ octet ≤ 0xDF then some ⟨octet - 0xC0, 1, 0x80, 0xBF⟩
  else if octet = 0xE0 then some ⟨0, 2, 0xA0, 0xBF⟩
  else if octet = 0xED then some ⟨0xD, 2, 0x80, 0x9F⟩
  else if 0xE1 ≤ octet ∧ octet ≤ 0xEF then some ⟨octet - 0xE0, 2, 0x80, 0xBF⟩
  else if octet = 0xF0 then some ⟨0, 3, 0x90, 0xBF⟩
  else if 0xF1 ≤ octet ∧ octet ≤ 0xF3 then some ⟨octet - 0xF0, 3, 0x80, 0xBF⟩
  else if octet = 0xF4 then some ⟨4, 3, 0x80, 0x8F⟩
  else none

def start (octet : Nat) : List (Option Char) × Option Pending :=
  if octet < 0x80 then ([some (Char.ofNat octet)], none)
  else match begin? octet with
    | some pending => ([], some pending)
    | none => ([none], none)

def step : Option Pending → Nat → List (Option Char) × Option Pending
  | none, octet => start octet
  | some pending, octet =>
      if pending.low ≤ octet ∧ octet ≤ pending.high then
        let bits := pending.bits * 64 + (octet - 0x80)
        if pending.owed = 1 then ([some (Char.ofNat bits)], none)
        else ([], some ⟨bits, pending.owed - 1, 0x80, 0xBF⟩)
      else
        let (characters, next) := start octet
        (none :: characters, next)

def run (done : List (Option Char)) (pending : Option Pending) :
    List UInt8 → List (Option Char)
  | [] => (if pending.isSome then none :: done else done).reverse
  | octet :: rest =>
      let (characters, next) := step pending octet.toNat
      run (characters.reverse ++ done) next rest

end Utf8

def decode (octets : List UInt8) : List (Option Char) :=
  Utf8.run [] none octets

def decode? (octets : List UInt8) : Option (List Char) :=
  (decode octets).mapM id

def decodeLossy (octets : List UInt8) : String :=
  String.ofList ((decode octets).map fun c => c.getD '\uFFFD')

end TreeWalk.Text
