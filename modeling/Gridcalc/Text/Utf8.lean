/-! # UTF-8

Texts as octets and back. Reading never fails: each longest run of octets that starts a character
but does not end one, and each octet that starts none, is read as the replacement character.
-/

namespace Gridcalc.Text.Utf8

def encode (cs : List Char) : List UInt8 := cs.flatMap String.utf8EncodeChar

/-- A character of which some octets are still to come: how many more after the next one, the
range of the next one, and the bits so far. -/
structure Pending where
  owed : Nat
  low : UInt8
  high : UInt8
  bits : Nat

/-- What an octet gives, and what is pending after it. -/
abbrev Progress := List Char × Option Pending

def replacement : Char := '\ufffd'

/-- An octet between two characters. -/
def first (b : UInt8) : Progress :=
  let lead (owed : Nat) (low high : UInt8) (base : Nat) : Progress :=
    ([], some ⟨owed, low, high, b.toNat - base⟩)
  if b < 0x80 then ([Char.ofNat b.toNat], none)
  else if b < 0xc2 then ([replacement], none)
  else if b < 0xe0 then lead 0 0x80 0xbf 0xc0
  else if b = 0xe0 then lead 1 0xa0 0xbf 0xe0
  else if b = 0xed then lead 1 0x80 0x9f 0xe0
  else if b < 0xf0 then lead 1 0x80 0xbf 0xe0
  else if b = 0xf0 then lead 2 0x90 0xbf 0xf0
  else if b < 0xf4 then lead 2 0x80 0xbf 0xf0
  else if b = 0xf4 then lead 2 0x80 0x8f 0xf0
  else ([replacement], none)

def Pending.extend (p : Pending) (b : UInt8) : Progress :=
  let bits := 64 * p.bits + (b.toNat - 0x80)
  match p.owed with
  | 0 => ([Char.ofNat bits], none)
  | owed + 1 => ([], some ⟨owed, 0x80, 0xbf, bits⟩)

def step (pending : Option Pending) (b : UInt8) : Progress :=
  match pending with
  | none => first b
  | some p =>
    if p.low ≤ b ∧ b ≤ p.high then p.extend b
    else (replacement :: (first b).1, (first b).2)

/-- One more octet, the characters so far being in reverse. -/
def absorb (p : Progress) (b : UInt8) : Progress :=
  let next := step p.2 b
  (next.1.reverseAux p.1, next.2)

def decode (bs : List UInt8) : List Char :=
  match bs.foldl absorb ([], none) with
  | (cs, none) => cs.reverse
  | (cs, some _) => (replacement :: cs).reverse

end Gridcalc.Text.Utf8
