/-!
Texts out of bytes that may not be UTF-8: what cannot be decoded is shown as the
replacement character, one for each broken sequence.
-/

namespace Jobflow.Text

/-- What may follow the first byte of a sequence: how many bytes, and the range
of the next one. -/
structure Continuation where
  count : Nat
  low : Nat
  high : Nat

/-- The continuation of a first byte of a longer sequence. Overlong forms,
surrogates and numbers past the last code point are ruled out by the range of
the second byte. -/
def continuation? (b : Nat) : Option Continuation :=
  if 0xC2 ≤ b ∧ b ≤ 0xDF then some ⟨1, 0x80, 0xBF⟩
  else if b = 0xE0 then some ⟨2, 0xA0, 0xBF⟩
  else if b = 0xED then some ⟨2, 0x80, 0x9F⟩
  else if 0xE1 ≤ b ∧ b ≤ 0xEF then some ⟨2, 0x80, 0xBF⟩
  else if b = 0xF0 then some ⟨3, 0x90, 0xBF⟩
  else if 0xF1 ≤ b ∧ b ≤ 0xF3 then some ⟨3, 0x80, 0xBF⟩
  else if b = 0xF4 then some ⟨3, 0x80, 0x8F⟩
  else none

/-- The bits that the first byte of a sequence contributes. -/
def leadBits (b : Nat) : Nat :=
  if b < 0xE0 then b % 32 else if b < 0xF0 then b % 16 else b % 8

/-- Stands for bytes that cannot be decoded. -/
def replacement : Char := Char.ofNat 0xFFFD

/-- Decodes bytes; `pending` is the continuation of the sequence that was
started and its value so far. -/
def decodeLossy (pending : Option (Continuation × Nat)) : List UInt8 → List Char
  | [] => if pending.isSome then [replacement] else []
  | byte :: rest =>
    let b := byte.toNat
    let start (_ : Unit) : List Char :=
      if b < 0x80 then Char.ofNat b :: decodeLossy none rest
      else match continuation? b with
        | some next => decodeLossy (some (next, leadBits b)) rest
        | none => replacement :: decodeLossy none rest
    match pending with
    | none => start ()
    | some (next, value) =>
      if next.low ≤ b ∧ b ≤ next.high then
        let value := 64 * value + b % 64
        if next.count ≤ 1 then Char.ofNat value :: decodeLossy none rest
        else decodeLossy (some (⟨next.count - 1, 0x80, 0xBF⟩, value)) rest
      else replacement :: start ()

end Jobflow.Text
