import VirtualDisk.Instant
import VirtualDisk.Text.Blank

namespace VirtualDisk.Instant

abbrev Reader (α : Type) := List Char → Option (α × List Char)

/-- The number that starts a text, of at most `most` digits if there is a limit. -/
def readNumber (most : Option Nat) : Reader Nat := fun chars =>
  let room := match most with
    | some n => chars.take n
    | none => chars
  let digits := room.takeWhile Char.isDigit
  if digits.isEmpty then none
  else some (Nat.ofDigitChars 10 digits 0, chars.drop digits.length)

def readPart : Reader Nat := fun chars => readNumber (some 2) (Blank.trim chars)

def readMark (mark : Char) : Reader Unit := fun chars =>
  match Blank.trim chars with
  | c :: rest => if c = mark then some ((), rest) else none
  | [] => none

/-- A year: of at most four digits, or of any number of them behind a sign. -/
def readYear : Reader Int := fun chars =>
  match Blank.trim chars with
  | '-' :: rest => (readNumber none rest).map fun r => (-(r.1 : Int), r.2)
  | '+' :: rest => (readNumber none rest).map fun r => ((r.1 : Int), r.2)
  | rest => (readNumber (some 4) rest).map fun r => ((r.1 : Int), r.2)

def isWithinRange (d : Date) : Bool := -262143 ≤ d.year && d.year ≤ 262142

def readDate : Reader Date := fun chars => do
  let (year, chars) ← readYear chars
  let (_, chars) ← readMark '-' chars
  let (month, chars) ← readPart chars
  let (_, chars) ← readMark '-' chars
  let (day, chars) ← readPart chars
  let date : Date := ⟨year, month, day⟩
  if date.isValid && isWithinRange date then return (date, chars) else none

def readGap : Reader Unit
  | c :: rest => if c == 'T' || c == 't' || c == ' ' then some ((), rest) else none
  | [] => none

/-- The nanoseconds of a fraction; digits behind the ninth do not count. -/
def readFraction : Reader Nat
  | '.' :: chars => do
    let (value, rest) ← readNumber (some 9) chars
    let digits := chars.length - rest.length
    return (value * Nat.pow 10 (9 - digits), rest.dropWhile Char.isDigit)
  | chars => some (0, chars)

/-- The second of the day, and the nanoseconds after it. The second sixty of a
minute counts as the last one, a full second later. -/
def readTime : Reader (Nat × Nat) := fun chars => do
  let (hour, chars) ← readPart chars
  let (_, chars) ← readMark ':' chars
  let (minute, chars) ← readPart chars
  let (_, chars) ← readMark ':' chars
  let (second, chars) ← readPart chars
  let (fraction, chars) ← readFraction chars
  if hour ≤ 23 ∧ minute ≤ 59 ∧ second ≤ 60 then
    let leap := if second = 60 then 1000000000 else 0
    return ((hour * 3600 + minute * 60 + min second 59, leap + fraction), chars)
  else none

def readTwoDigits : Reader Nat
  | a :: b :: rest =>
    if a.isDigit && b.isDigit then some (Nat.ofDigitChars 10 [a, b] 0, rest) else none
  | _ => none

def readSign : Reader Int
  | c :: rest =>
    if c == '+' then some (1, rest)
    else if c == '-' || c == '\u2212' then some (-1, rest)
    else none
  | [] => none

def readHours : Reader Int := fun chars => do
  let (sign, chars) ← readSign chars
  let (hours, chars) ← readTwoDigits chars
  let (minutes, chars) ← readTwoDigits (chars.dropWhile fun c => c == ':' || Blank.contains c)
  if hours ≤ 23 ∧ minutes ≤ 59 then return (sign * (hours * 3600 + minutes * 60 : Nat), chars)
  else none

def readOffset : Reader Int := fun chars =>
  let chars := Blank.trim chars
  if (chars.take 3).map Char.toUpper = "UTC".toList then some (0, chars.drop 3)
  else match chars with
    | c :: rest => if c == 'Z' || c == 'z' then some (0, rest) else readHours chars
    | [] => none

def ofChars? (chars : List Char) : Option Instant := do
  let (date, chars) ← readDate chars
  let (_, chars) ← readGap chars
  let ((second, nanoseconds), chars) ← readTime chars
  let (offset, chars) ← readOffset chars
  let instant : Instant := ⟨date.toDays * 86400 + second - offset, nanoseconds⟩
  if (Blank.trim chars).isEmpty && isWithinRange instant.date then return instant else none

end VirtualDisk.Instant
