/-!
# UTF-8

Bytes are decoded one at a time. A sequence that breaks off, and a byte that cannot begin one,
gives no character; what follows is decoded from the byte where the sequence broke off. Sources
are read with a replacement for every such gap, other texts must not have any.
-/

namespace ScreenForms.Text.Utf8

/-- A sequence that has begun: how many bytes are missing, the range of the next one, and the bits
read so far. -/
structure Pending where
  missing : Nat
  low : Nat := 0x80
  high : Nat := 0xBF
  bits : Nat
  deriving DecidableEq, Repr

/-- What a byte at the beginning of a sequence stands for: a character, an open sequence, or
nothing. Sequences for overlong forms, surrogates and numbers that are no characters do not
begin or do not go on. -/
def begin (b : Nat) : Option (Char ⊕ Pending) :=
  if b < 0x80 then some (.inl (Char.ofNat b))
  else if b < 0xC2 then none
  else if b < 0xE0 then some (.inr { missing := 1, bits := b - 0xC0 })
  else if b = 0xE0 then some (.inr { missing := 2, low := 0xA0, bits := 0 })
  else if b = 0xED then some (.inr { missing := 2, high := 0x9F, bits := 0xD })
  else if b < 0xF0 then some (.inr { missing := 2, bits := b - 0xE0 })
  else if b = 0xF0 then some (.inr { missing := 3, low := 0x90, bits := 0 })
  else if b < 0xF4 then some (.inr { missing := 3, bits := b - 0xF0 })
  else if b = 0xF4 then some (.inr { missing := 3, high := 0x8F, bits := 4 })
  else none

/-- What a byte at the beginning of a sequence adds to the characters, and the sequence that is
open behind it. -/
def startWith (b : UInt8) : List (Option Char) × Option Pending :=
  match begin b.toNat with
  | some (.inl c) => ([some c], none)
  | some (.inr p) => ([], some p)
  | none => ([none], none)

/-- What a byte adds to the characters, and the sequence that is open behind it. A byte that does
not go on with the open sequence breaks it and begins another. -/
def next (pending : Option Pending) (b : UInt8) : List (Option Char) × Option Pending :=
  match pending with
  | none => startWith b
  | some p =>
    if p.low ≤ b.toNat ∧ b.toNat ≤ p.high then
      let bits := p.bits * 64 + (b.toNat - 0x80)
      if p.missing ≤ 1 then ([some (Char.ofNat bits)], none)
      else ([], some { missing := p.missing - 1, bits })
    else
      let (read, pending) := startWith b
      (none :: read, pending)

/-- The characters of a text, with nothing in the place of each broken sequence. -/
def decodeFrom : Option Pending → List UInt8 → List (Option Char)
  | none, [] => []
  | some _, [] => [none]
  | pending, b :: bs =>
    let (read, pending) := next pending b
    read ++ decodeFrom pending bs

/-- The text of bytes, when none of their sequences is broken. -/
def decode? (bytes : List UInt8) : Option String :=
  ((decodeFrom none bytes).mapM id).map String.ofList

/-- The text of bytes with a replacement character for every broken sequence. -/
def decode (bytes : List UInt8) : String :=
  String.ofList ((decodeFrom none bytes).map fun c => c.getD '\uFFFD')

example : decodeFrom none [0x61, 0xC3, 0xA9, 0xFF, 0xE2, 0x82, 0x62] =
    [some 'a', some 'é', none, none, some 'b'] := by
  decide

end ScreenForms.Text.Utf8
