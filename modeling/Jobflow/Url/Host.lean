import Jobflow.Url.Idna

/-!
Hosts of URLs: domain names, IPv4 addresses in any of their numeric spellings,
IPv6 addresses in brackets, and opaque hosts of other schemes. A host is kept
in the one spelling it is compared by.
-/

namespace Jobflow.Url

/-- Why a text is no URL. -/
inductive UrlError where
  | noBase
  | emptyHost
  | invalidDomainName
  | invalidHostCharacter
  | invalidIpv4
  | invalidIpv6
  | invalidPort
  deriving DecidableEq, Repr

def UrlError.message : UrlError → String
  | .noBase => "relative URL without a base"
  | .emptyHost => "empty host"
  | .invalidDomainName => "invalid international domain name"
  | .invalidHostCharacter => "invalid domain character"
  | .invalidIpv4 => "invalid IPv4 address"
  | .invalidIpv6 => "invalid IPv6 address"
  | .invalidPort => "invalid port number"

/-! ### Percent encoding -/

/-- The bytes of a text in which `%` and two hexadecimal digits write a byte. -/
def percentDecode : List UInt8 → List UInt8
  | 0x25 :: a :: b :: rest =>
    match Text.hexValue? (Char.ofNat a.toNat), Text.hexValue? (Char.ofNat b.toNat) with
    | some x, some y => UInt8.ofNat (16 * x + y) :: percentDecode rest
    | _, _ => 0x25 :: percentDecode (a :: b :: rest)
  | byte :: rest => byte :: percentDecode rest
  | [] => []

/-- The upper-case hexadecimal digit of a number below sixteen. -/
def upperHex (n : Nat) : Char :=
  if n < 10 then Char.ofNat ('0'.toNat + n) else Char.ofNat ('A'.toNat + (n - 10))

/-- The text with controls and all characters outside ASCII percent-encoded. -/
def percentEncode (cs : List Char) : List Char :=
  cs.flatMap fun c =>
    if 0x20 ≤ c.toNat ∧ c.toNat < 0x7F then [c]
    else (String.singleton c).toUTF8.toList.flatMap fun byte =>
      ['%', upperHex (byte.toNat / 16), upperHex (byte.toNat % 16)]

/-! ### IPv4 -/

/-- How a part of an address reads as a number. -/
inductive PartNumber where
  | notANumber
  | tooLarge
  | value (n : Nat)
  deriving DecidableEq, Repr

/-- The number that digits of a base write, up to 32 bits. -/
def baseNumber (base : Nat) (digits : List Char) : PartNumber :=
  if digits.all fun c => (Text.hexValue? c).any (· < base) then
    let n := digits.foldl (fun n c => base * n + (Text.hexValue? c).getD 0) 0
    if n < Nat.pow 2 32 then .value n else .tooLarge
  else .notANumber

/-- A decimal, octal or hexadecimal number. -/
def partNumber : List Char → PartNumber
  | [] => .notANumber
  | '0' :: x :: rest =>
    if x == 'x' || x == 'X' then (if rest.isEmpty then .value 0 else baseNumber 16 rest)
    else baseNumber 8 (x :: rest)
  | digits => baseNumber 10 digits

/-- The parts between the dots, without an empty part at the end. -/
def addressParts (cs : List Char) : List (List Char) :=
  let parts := Text.splitBy (· == '.') cs
  if 1 < parts.length ∧ parts.getLast? = some [] then parts.dropLast else parts

/-- Whether the last part of a domain makes it an address. -/
def endsInNumber (cs : List Char) : Bool :=
  match (addressParts cs).getLast? with
  | some last =>
    (!last.isEmpty && last.all Text.isDigit) || partNumber last != .notANumber
  | none => false

/-- The address that parts write: the last one fills the bytes that are left. -/
def ipv4Address (parts : List (List Char)) : Option Nat := do
  let numbers ← parts.mapM fun part =>
    match partNumber part with
    | .value n => some n
    | _ => none
  let last ← numbers.getLast?
  let front := numbers.dropLast
  if 4 < parts.length ∨ front.any (255 < ·) ∨ Nat.pow 256 (4 - front.length) ≤ last then none
  else
    let high := front.foldl (fun n part => 256 * n + part) 0
    return high * Nat.pow 256 (4 - front.length) + last

/-- An IPv4 address as four numbers. -/
def ipv4Text (n : Nat) : List Char :=
  let byte (k : Nat) : List Char := Nat.toDigits 10 (n / Nat.pow 256 k % 256)
  byte 3 ++ '.' :: byte 2 ++ '.' :: byte 1 ++ '.' :: byte 0

/-! ### IPv6 -/

/-- Up to `count` hexadecimal digits at the start of a text. -/
def hexPiece : Nat → List Char → Nat → Nat × List Char
  | 0, cs, n => (n, cs)
  | _ + 1, [], n => (n, [])
  | count + 1, c :: rest, n =>
    match Text.hexValue? c with
    | some d => hexPiece count rest (16 * n + d)
    | none => (n, c :: rest)

/-- A number below 256 in decimal at the start of a text, without leading zeros. -/
def decimalByte (cs : List Char) : Option (Nat × List Char) :=
  let digits := cs.takeWhile Text.isDigit
  let n := Text.decimalValue digits
  match digits with
  | [] => none
  | '0' :: _ :: _ => none
  | _ => if n < 256 then some (n, cs.drop digits.length) else none

/-- The last two pieces of an address, written as an IPv4 address. -/
def embeddedIpv4 (cs : List Char) : Option (List Nat) := do
  let (a, rest) ← decimalByte cs
  let '.' :: rest := rest | none
  let (b, rest) ← decimalByte rest
  let '.' :: rest := rest | none
  let (c, rest) ← decimalByte rest
  let '.' :: rest := rest | none
  let (d, rest) ← decimalByte rest
  if rest.isEmpty then return [256 * a + b, 256 * c + d] else none

/-- Reads the pieces of an address: those read, and how many of them stand
before the gap, if a gap was seen. The fuel is the length of the text. -/
def ipv6Pieces : Nat → List Nat → Option Nat → List Char → Option (List Nat × Option Nat)
  | 0, _, _, _ => none
  | fuel + 1, pieces, gap, cs =>
    match cs with
    | [] => some (pieces, gap)
    | ':' :: rest =>
      if gap.isSome ∨ 8 ≤ pieces.length then none
      else ipv6Pieces fuel pieces (some pieces.length) rest
    | cs =>
      if 8 ≤ pieces.length then none
      else
        let (n, rest) := hexPiece 4 cs 0
        match rest with
        | '.' :: _ =>
          if rest.length = cs.length ∨ 6 < pieces.length then none
          else do
            let two ← embeddedIpv4 cs
            return (pieces ++ two, gap)
        | ':' :: [] => none
        | ':' :: rest => if rest.length + 1 = cs.length then none
          else ipv6Pieces fuel (pieces ++ [n]) gap rest
        | [] => some (pieces ++ [n], gap)
        | _ => none

def ipv6Address (cs : List Char) : Option (List Nat) := do
  let (pieces, gap) ← match cs with
    | ':' :: ':' :: rest => ipv6Pieces (rest.length + 1) [] (some 0) rest
    | ':' :: _ => none
    | cs => ipv6Pieces (cs.length + 1) [] none cs
  match gap with
  | some before =>
    if 8 ≤ pieces.length then none
    else return pieces.take before ++ List.replicate (8 - pieces.length) 0 ++ pieces.drop before
  | none => if pieces.length = 8 then return pieces else none

/-- The length of the run of zeros at the start of a list. -/
def zeroRun (pieces : List Nat) : Nat := (pieces.takeWhile (· == 0)).length

/-- The first longest run of at least two zeros: its start and length. -/
def longestGap (pieces : List Nat) : Option (Nat × Nat) :=
  (List.range pieces.length).foldl
    (fun best start =>
      let length := zeroRun (pieces.drop start)
      let record := match best with
        | some (_, n) => n
        | none => 1
      if record < length then some (start, length) else best) none

/-- A piece in lower-case hexadecimal. -/
def pieceText (n : Nat) : List Char := Nat.toDigits 16 n

def piecesText (pieces : List Nat) : List Char :=
  ((pieces.map pieceText).intersperse [':']).flatten

/-- An IPv6 address in brackets, its longest run of zeros left out. -/
def ipv6Text (pieces : List Nat) : List Char :=
  let body := match longestGap pieces with
    | some (start, length) =>
      piecesText (pieces.take start) ++ [':', ':'] ++ piecesText (pieces.drop (start + length))
    | none => piecesText pieces
  '[' :: body ++ [']']

/-! ### Hosts -/

def bracketedHost (cs : List Char) : Except UrlError (List Char) :=
  match cs.getLast?, ipv6Address cs.dropLast with
  | some ']', some pieces => .ok (ipv6Text pieces)
  | _, _ => .error .invalidIpv6

def specialHost (cs : List Char) : Except UrlError (List Char) :=
  match cs with
  | '[' :: rest => bracketedHost rest
  | cs =>
    let bytes := percentDecode (String.ofList cs).toUTF8.toList
    match String.fromUTF8? ⟨bytes.toArray⟩ with
    | none => .error .invalidDomainName
    | some decoded =>
      match Idna.toAscii decoded.toList with
      | none => .error .invalidDomainName
      | some [] => .error .emptyHost
      | some domain =>
        if endsInNumber domain then
          match ipv4Address (addressParts domain) with
          | some n => .ok (ipv4Text n)
          | none => .error .invalidIpv4
        else .ok domain

/-- Characters that an opaque host may not have. -/
def isForbiddenOpaque (c : Char) : Bool :=
  c ∈ ['\x00', '\t', '\n', '\r', ' ', '#', '/', ':', '<', '>', '?', '@', '[', '\\', ']', '^', '|']

def opaqueHost (cs : List Char) : Except UrlError (List Char) :=
  match cs with
  | '[' :: rest => bracketedHost rest
  | cs => if cs.any isForbiddenOpaque then .error .invalidHostCharacter else .ok (percentEncode cs)

end Jobflow.Url
