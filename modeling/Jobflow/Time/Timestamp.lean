import Jobflow.Json.Read
import Jobflow.Time.Instant

/-!
Timestamps as texts: date, time, fraction and offset from universal time.
Reading is generous with blanks and separators; writing gives the shortest of
zero, three, six or nine decimals that is exact.
-/

namespace Jobflow.Time

/-- Why a text is no timestamp. -/
inductive TimestampError where
  | invalid
  | tooShort
  | tooLong
  | outOfRange
  | impossible
  deriving DecidableEq, Repr

def TimestampError.message : TimestampError → String
  | .invalid => "input contains invalid characters"
  | .tooShort => "premature end of input"
  | .tooLong => "trailing input"
  | .outOfRange => "input is out of range"
  | .impossible => "no possible date and time matching input"

/-! ### Reading -/

def skipBlanks (cs : List Char) : List Char := cs.dropWhile Text.isBlankChar

/-- A number of one to `width` digits. -/
def number (width : Nat) (cs : List Char) : Except TimestampError (Nat × List Char) :=
  match cs with
  | [] => .error .tooShort
  | _ =>
    let digits := (cs.takeWhile Text.isDigit).take width
    if digits.isEmpty then .error .invalid
    else .ok (Text.decimalValue digits, cs.drop digits.length)

/-- A number of any length below `2 ^ 63`. -/
def longNumber (cs : List Char) : Except TimestampError (Nat × List Char) := do
  let (n, rest) ← number cs.length cs
  if n < Nat.pow 2 63 then return (n, rest) else .error .outOfRange

/-- A number in a range, after blanks. -/
def bounded (low high : Nat) (cs : List Char) : Except TimestampError (Nat × List Char) := do
  let (n, rest) ← number 2 (skipBlanks cs)
  if low ≤ n ∧ n ≤ high then return (n, rest) else .error .outOfRange

/-- A year: up to four digits, or any number of digits after a sign. -/
def year (cs : List Char) : Except TimestampError (Int × List Char) := do
  let (y, rest) ← match skipBlanks cs with
    | '-' :: rest => do
      let (n, rest) ← longNumber rest
      pure (-(n : Int), rest)
    | '+' :: rest => do
      let (n, rest) ← longNumber rest
      pure ((n : Int), rest)
    | cs => do
      let (n, rest) ← number 4 cs
      pure ((n : Int), rest)
  if -2147483648 ≤ y ∧ y ≤ 2147483647 then return (y, rest) else .error .outOfRange

/-- A separator, after blanks. -/
def separator (c : Char) (cs : List Char) : Except TimestampError (List Char) :=
  match skipBlanks cs with
  | [] => .error .tooShort
  | d :: rest => if c = d then .ok rest else .error .invalid

/-- The decimals of a second, if there is a point: the first nine count. -/
def fraction (cs : List Char) : Except TimestampError (Nat × List Char) :=
  match cs with
  | '.' :: rest => do
    let (n, after) ← number 9 rest
    let count := rest.length - after.length
    return (n * Nat.pow 10 (9 - count), after.dropWhile Text.isDigit)
  | cs => .ok (0, cs)

/-- Two digits, the first of them at most `high`. -/
def twoDigits (high : Char) (cs : List Char) : Except TimestampError (Nat × List Char) :=
  match cs with
  | a :: b :: rest =>
    if Text.isDigit a ∧ Text.isDigit b then
      if a ≤ high then .ok (10 * Text.digitValue a + Text.digitValue b, rest)
      else .error .outOfRange
    else .error .invalid
  | [a] => if a.utf8Size < 2 then .error .tooShort else .error .invalid
  | [] => .error .tooShort

/-- The offset from universal time, in seconds. -/
def offset (cs : List Char) : Except TimestampError (Int × List Char) :=
  let cs := skipBlanks cs
  let signed (sign : Int) (cs : List Char) : Except TimestampError (Int × List Char) := do
    let (hours, cs) ← twoDigits '9' cs
    let cs := cs.dropWhile fun c => c == ':' || Text.isBlankChar c
    match cs with
    | [] | [_] => .error .tooShort
    | cs => do
      let (minutes, cs) ← twoDigits '5' cs
      return (sign * (hours * 3600 + minutes * 60), cs)
  if Text.sameIgnoringCase (String.ofList (cs.take 3)) "UTC" then .ok (0, cs.drop 3)
  else match cs with
    | 'Z' :: rest | 'z' :: rest => .ok (0, rest)
    | '+' :: rest => signed 1 rest
    | '-' :: rest | '−' :: rest => signed (-1) rest
    | [] => .error .tooShort
    | _ => .error .invalid

/-- The mark between date and time. -/
def dateTimeMark (cs : List Char) : Except TimestampError (List Char) :=
  match cs with
  | 'T' :: rest | 't' :: rest | ' ' :: rest => .ok rest
  | [] => .error .tooShort
  | _ => .error .invalid

/-- The first and last days that can be named, as day numbers. -/
def firstDay : Int := Date.dayNumber ⟨-262143, 1, 1⟩

def lastDay : Int := Date.dayNumber ⟨262142, 12, 31⟩

def parseChars (cs : List Char) : Except TimestampError Instant := do
  let (y, cs) ← year cs
  let cs ← separator '-' cs
  let (m, cs) ← bounded 1 12 cs
  let cs ← separator '-' cs
  let (d, cs) ← bounded 1 31 cs
  let cs ← dateTimeMark cs
  let (hour, cs) ← bounded 0 23 cs
  let cs ← separator ':' cs
  let (minute, cs) ← bounded 0 59 cs
  let cs ← separator ':' cs
  let (second, cs) ← bounded 0 60 cs
  let (nanos, cs) ← fraction cs
  let (shift, cs) ← offset cs
  if !(skipBlanks cs).isEmpty then .error .tooLong
  let date : Date := ⟨y, m, d⟩
  let day := date.dayNumber
  if !date.isValid || day < firstDay || lastDay < day then .error .outOfRange
  if shift.natAbs ≥ 86400 then .error .outOfRange
  let leap := second = 60
  let seconds := day * 86400 + hour * 3600 + minute * 60 + (if leap then 59 else second) - shift
  let utcDay := seconds.fdiv 86400
  if utcDay < firstDay || lastDay < utcDay then .error .impossible
  return ⟨seconds, if leap then nanos + 1000000000 else nanos⟩

def Instant.parse (text : String) : Except TimestampError Instant := parseChars text.toList

/-! ### Writing -/

/-- A year on four places, with a sign when it needs one. -/
def yearText (y : Int) : String :=
  if 0 ≤ y ∧ y ≤ 9999 then Text.padded 4 y.toNat
  else (if y < 0 then "-" else "+") ++ Text.padded 4 y.natAbs

/-- The decimals of a second, in groups of three. -/
def fractionText (nanos : Nat) : String :=
  if nanos = 0 then ""
  else if nanos % 1000000 = 0 then "." ++ Text.padded 3 (nanos / 1000000)
  else if nanos % 1000 = 0 then "." ++ Text.padded 6 (nanos / 1000)
  else "." ++ Text.padded 9 nanos

namespace Instant

/-- The instant in universal time, ending in a mark for the offset. -/
def format (t : Instant) (mark : String) : String :=
  let (date, second) := t.split
  let leap := 1000000000 ≤ t.nanos
  let shown := second % 60 + (if leap then 1 else 0)
  yearText date.year ++ "-" ++ Text.padded 2 date.month ++ "-" ++ Text.padded 2 date.day ++ "T" ++
    Text.padded 2 (second / 3600) ++ ":" ++ Text.padded 2 (second / 60 % 60) ++ ":" ++
    Text.padded 2 shown ++ fractionText (if leap then t.nanos - 1000000000 else t.nanos) ++ mark

def text (t : Instant) : String := t.format "Z"

def read : Json.Reader Instant :=
  Json.readText "an RFC 3339 formatted date and time string" fun s =>
    match Instant.parse s with
    | .ok t => .ok t
    | .error e => .error (.rejected e.message)

end Instant

end Jobflow.Time
