import Jobflow.Text.Basic

/-!
Punycode: labels with characters outside ASCII written in ASCII. The characters
are inserted in increasing order of their code points; each insertion is one
number, written in base 36 with thresholds that adapt to the numbers so far.
-/

namespace Jobflow.Url.Punycode

/-- The digit for a number below 36: letters first, then digits. -/
def digit (d : Nat) : Char :=
  if d < 26 then Char.ofNat ('a'.toNat + d) else Char.ofNat ('0'.toNat + (d - 26))

/-- The number of a digit, in either case. -/
def digitValue? (c : Char) : Option Nat :=
  if 'a' ≤ c ∧ c ≤ 'z' then some (c.toNat - 'a'.toNat)
  else if 'A' ≤ c ∧ c ≤ 'Z' then some (c.toNat - 'A'.toNat)
  else if '0' ≤ c ∧ c ≤ '9' then some (c.toNat - '0'.toNat + 26)
  else none

/-- The threshold of the digit at position `k`, counted in steps of 36. -/
def threshold (k bias : Nat) : Nat :=
  if k ≤ bias then 1 else if bias + 26 ≤ k then 26 else k - bias

theorem threshold_bounds (k bias : Nat) : 1 ≤ threshold k bias ∧ threshold k bias ≤ 26 := by
  unfold threshold
  split
  · omega
  · split <;> omega

/-- Divides by 35 until the number is at most 455, counting steps of 36. -/
def damp (delta k : Nat) : Nat × Nat :=
  if 455 < delta then damp (delta / 35) (k + 36) else (delta, k)
termination_by delta
decreasing_by exact Nat.div_lt_self (by omega) (by omega)

/-- The bias after a number `delta` was written for the `count`-th insertion. -/
def adapt (delta count : Nat) (first : Bool) : Nat :=
  let delta := if first then delta / 700 else delta / 2
  let (delta, k) := damp (delta + delta / count) 0
  k + 36 * delta / (delta + 38)

/-- The digits of a number, least significant first. -/
def writeNumber (bias k n : Nat) : List Char :=
  let t := threshold k bias
  if n < t then [digit n]
  else digit (t + (n - t) % (36 - t)) :: writeNumber bias (k + 36) ((n - t) / (36 - t))
termination_by n
decreasing_by
  have h := threshold_bounds k bias
  have := Nat.div_le_self (n - threshold k bias) (36 - threshold k bias)
  omega

/-- The state of the encoder: what is written, the number to be written next,
the bias, and how many characters are placed. -/
structure Encoder where
  written : List Char
  delta : Nat
  bias : Nat
  placed : Nat

/-- Passes one character of the label while code point `m` is inserted. -/
def passChar (basic m : Nat) (s : Encoder) (c : Char) : Encoder :=
  if c.toNat < m then { s with delta := s.delta + 1 }
  else if c.toNat = m then
    { written := s.written ++ writeNumber s.bias 36 s.delta
      delta := 0
      bias := adapt s.delta (s.placed + 1) (s.placed = basic)
      placed := s.placed + 1 }
  else s

/-- Inserts the code points of the list, which are increasing and at least `n`. -/
def insertAll (label : List Char) (basic : Nat) : List Nat → Nat → Encoder → Encoder
  | [], _, s => s
  | m :: rest, n, s =>
    let s := { s with delta := s.delta + (m - n) * (s.placed + 1) }
    let s := label.foldl (passChar basic m) s
    insertAll label basic rest (m + 1) { s with delta := s.delta + 1 }

/-- The code points of a list without repetitions, increasing. -/
def sortedCodes (cs : List Char) : List Nat :=
  (cs.map Char.toNat).mergeSort (· ≤ ·) |>.foldr
    (fun n rest => if rest.head? = some n then rest else n :: rest) []

/-- The label in ASCII, without the mark of encoded labels. -/
def encode (label : List Char) : List Char :=
  let basic := label.filter fun c => c.toNat < 0x80
  let others := label.filter fun c => 0x80 ≤ c.toNat
  let s := insertAll label basic.length (sortedCodes others) 0x80 ⟨[], 0, 72, basic.length⟩
  basic ++ (if basic.isEmpty then [] else ['-']) ++ s.written

/-- Reads one number from a text: its value added to `i` and the rest. -/
def readNumber (bias : Nat) : List Char → Nat → Nat → Nat → Option (Nat × List Char)
  | [], _, _, _ => none
  | c :: rest, k, weight, i =>
    match digitValue? c with
    | none => none
    | some d =>
      let t := threshold k bias
      if d < t then some (i + d * weight, rest)
      else readNumber bias rest (k + 36) (weight * (36 - t)) (i + d * weight)

/-- Reads insertions until the text ends; the fuel is the length of the text. -/
def readInsertions : Nat → Nat → Nat → Nat → List Char → List Char → Option (List Char)
  | _, _, _, _, label, [] => some label
  | 0, _, _, _, _, _ => none
  | fuel + 1, bias, n, i, label, cs =>
    match readNumber bias cs 36 1 i with
    | none => none
    | some (j, rest) =>
      let count := label.length + 1
      let code := n + j / count
      let place := j % count
      if code < 0xD800 ∨ (0xDFFF < code ∧ code < 0x110000) then
        readInsertions fuel (adapt (j - i) count (i = 0)) code (place + 1)
          (label.insertIdx place (Char.ofNat code)) rest
      else none

/-- The label that a text encodes. -/
def decode (cs : List Char) : Option (List Char) :=
  let reversed := cs.reverse
  let tail := (reversed.takeWhile (· != '-')).reverse
  let basic := ((reversed.dropWhile (· != '-')).drop 1).reverse
  if tail.isEmpty then none
  else readInsertions tail.length 72 0x80 0 basic tail

end Jobflow.Url.Punycode
