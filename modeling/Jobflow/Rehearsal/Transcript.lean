import Jobflow.Time.Timestamp

/-!
Transcripts of rehearsals, without what differs from one to the next: places in
documents, random identifiers, numbers of tasks, and the time of day. The test
bench compares transcripts in this form.
-/

namespace Jobflow.Rehearsal

open Jobflow.Time (Instant)

/-- The text after a mark, if it starts with the mark. -/
def after? (mark : String) (cs : List Char) : Option (List Char) :=
  if mark.toList.isPrefixOf cs then some (cs.drop mark.toList.length) else none

/-- The text after at least one digit. -/
def afterDigits? (cs : List Char) : Option (List Char) :=
  match cs.takeWhile Text.isDigit with
  | [] => none
  | digits => some (cs.drop digits.length)

/-- The text after a place in a document. -/
def afterPosition? (cs : List Char) : Option (List Char) := do
  let rest ← after? " at line " cs
  let rest ← afterDigits? rest
  let rest ← after? " column " rest
  afterDigits? rest

/-- The text after the number of a task that broke down. -/
def afterTask? (cs : List Char) : Option (List Char) := do
  let rest ← after? "task " cs
  let rest ← afterDigits? rest
  after? " panicked" rest

/-- A hexadecimal digit as identifiers are written. -/
def isIdDigit (c : Char) : Bool := Text.isDigit c || ('a' ≤ c && c ≤ 'f')

/-- The text after a random identifier: one whose version is 4. -/
def afterId? (cs : List Char) : Option (List Char) :=
  let id := cs.take 36
  let groups := Text.splitBy (· == '-') id
  let isRandom := (id.drop 14).head? == some '4' &&
    (id.drop 19).head?.any fun c => "89ab".toList.contains c
  if groups.map List.length == [8, 4, 4, 4, 12] && groups.all (·.all isIdDigit) && isRandom then
    some (cs.drop 36)
  else none

/-- The text after a timestamp in universal time within an hour of `now`. -/
def afterTime? (now : Instant) (cs : List Char) : Option (List Char) := do
  let date := cs.take 19
  let shape := date.map fun c => if Text.isDigit c then 'd' else c
  if shape ≠ "dddd-dd-ddTdd:dd:dd".toList then none
  let t ← (Instant.parse (String.ofList (date ++ ['Z']))).toOption
  if 3600 < (t.seconds - now.seconds).natAbs then none
  let rest := match cs.drop 19 with
    | '.' :: decimals => decimals.dropWhile Text.isDigit
    | rest => rest
  after? "Z" rest <|> after? "+00:00" rest

/-- The text with marks in the places of what differs; the fuel bounds its length. -/
def redactChars (now : Instant) : (fuel : Nat) → List Char → List Char
  | 0, cs => cs
  | _, [] => []
  | fuel + 1, c :: rest =>
    let cs := c :: rest
    let found : Option (String × List Char) :=
      (afterPosition? cs).map ("", ·) <|> (afterId? cs).map ("<uuid>", ·) <|>
        (afterTask? cs).map ("task <n> panicked", ·) <|> (afterTime? now cs).map ("<now>", ·)
    match found with
    | some (mark, rest) => mark.toList ++ redactChars now fuel rest
    | none => c :: redactChars now fuel rest

/-- The text without what differs between rehearsals that take place at `now`. -/
def redact (now : Instant) (text : String) : String :=
  String.ofList (redactChars now text.toList.length text.toList)

end Jobflow.Rehearsal
