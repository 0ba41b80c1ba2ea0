import MetricBoard.Moment.Basic
import MetricBoard.Number.Decimal
import MetricBoard.Text.Blank

/-!
# Moments as text

Moments are written as RFC 3339 texts in universal time. Data files take the shortest fraction
that is exact (`text`); the store takes six digits, so that its texts of the years 0 to 9999 sort
as the moments do (`microText`).

Two readers stand beside the two forms. `ofStrict?` takes an RFC 3339 text with a year of four
digits; `ofLenient?` takes what data files may hold as well: a signed year, numbers without
leading zeros, blanks around the parts, and `UTC` for the offset. Both turn offsets into universal
time.
-/

namespace MetricBoard.Moment

/-! ## Writing -/

/-- The digits of a number, with zeros in front up to a width. -/
def padded (width n : Nat) : List Char :=
  let ds := Nat.toDigits 10 n
  List.replicate (width - ds.length) '0' ++ ds

/-- A year of four digits, or a signed one outside the years 0 to 9999. -/
def yearText (year : Int) : List Char :=
  if 0 ≤ year ∧ year ≤ 9999 then padded 4 year.toNat
  else if year < 0 then '-' :: padded 4 year.natAbs
  else '+' :: padded 4 year.natAbs

/-- The date and the time of a moment up to its second, which is 60 in a leap second. -/
def secondText (m : Moment) : List Char :=
  let d := m.date
  let s := m.second.val
  let leap := if m.nano.val < 1000000000 then 0 else 1
  yearText d.year ++ '-' :: padded 2 d.month ++ '-' :: padded 2 d.day ++
    'T' :: padded 2 (s / 3600) ++ ':' :: padded 2 (s / 60 % 60) ++ ':' :: padded 2 (s % 60 + leap)

/-- The fraction of a second: none, or the first of 3, 6 and 9 digits that is exact. -/
def fractionText (nano : Nat) : List Char :=
  if nano = 0 then []
  else if nano % 1000000 = 0 then '.' :: padded 3 (nano / 1000000)
  else if nano % 1000 = 0 then '.' :: padded 6 (nano / 1000)
  else '.' :: padded 9 nano

/-- A moment in a data file. -/
def text (m : Moment) : String :=
  String.ofList (secondText m ++ fractionText (m.nano.val % 1000000000) ++ ['Z'])

/-- A moment in the store, with its fraction cut to six digits. -/
def microText (m : Moment) : String :=
  String.ofList (secondText m ++ '.' :: padded 6 (m.nano.val % 1000000000 / 1000) ++ ['Z'])

/-! ## Reading -/

/-- A reader takes characters from the front of a text, or fails. -/
abbrev Reader := StateT (List Char) Option

namespace Reader

/-- Takes one of some characters. -/
def oneOf (cs : List Char) : Reader Unit := do
  match ← get with
  | c :: rest => if c ∈ cs then set rest else failure
  | [] => failure

/-- Drops blanks. -/
def blanks : Reader Unit := modify (List.dropWhile Text.isBlank)

/-- Takes digits, at least `least` and at most `most`, as a number. -/
def number (least most : Nat) : Reader Nat := do
  let cs ← get
  let ds := (cs.take most).takeWhile Char.isDigit
  if ds.length < least then failure
  set (cs.drop ds.length)
  return Decimal.digitsValue ds

/-- Takes a year: four digits at most, or any number of them behind a sign. -/
def year : Reader Int := do
  let cs ← get
  match cs with
  | '-' :: rest => set rest; return -(← number 1 cs.length : Nat)
  | '+' :: rest => set rest; return (← number 1 cs.length : Nat)
  | _ => return (← number 1 4 : Nat)

/-- Takes a fraction of a second as nanoseconds. Digits behind the ninth are dropped. -/
def fraction : Reader Nat := do
  match ← get with
  | '.' :: rest =>
    let ds := rest.takeWhile Char.isDigit
    if ds = [] then failure
    set (rest.drop ds.length)
    return Decimal.digitsValue (ds.take 9) * tenTo (9 - ds.length)
  | _ => return 0

/-- Takes an offset from universal time, in seconds: a `Z`, or a sign, two digits, a separator
and two digits. -/
def offset (separator : Reader Unit) : Reader Int := do
  match ← get with
  | [] => failure
  | c :: rest =>
    set rest
    if c = 'Z' ∨ c = 'z' then return 0
    if c ≠ '+' ∧ c ≠ '-' ∧ c ≠ '\u2212' then failure
    let hours ← number 2 2
    separator
    let minutes ← number 2 2
    if minutes > 59 ∨ hours > 23 then failure
    let seconds : Int := hours * 3600 + minutes * 60
    return if c = '+' then seconds else -seconds

end Reader

/-- The moment of a local date and time at an offset. The second may be 60. -/
def ofLocal? (date : Date) (hour minute second nano : Nat) (offset : Int) : Option Moment :=
  if h : date.isValid ∧ hour < 24 ∧ minute < 60 ∧ second < 61 ∧ nano < 1000000000 then
    let leap := second = 60
    let s : Int := date.toDay * 86400 + hour * 3600 + minute * 60 + (if leap then 59 else second)
    let m := ofSeconds (s - offset)
      ⟨if leap then nano + 1000000000 else nano, by split <;> omega⟩
    if firstDay ≤ m.day ∧ m.day ≤ lastDay then some m else none
  else none

/-- Takes an RFC 3339 text. -/
def strict : Reader Moment := do
  let year ← Reader.number 4 4
  Reader.oneOf ['-']
  let month ← Reader.number 2 2
  Reader.oneOf ['-']
  let day ← Reader.number 2 2
  Reader.oneOf ['T', 't', ' ']
  let hour ← Reader.number 2 2
  Reader.oneOf [':']
  let minute ← Reader.number 2 2
  Reader.oneOf [':']
  let second ← Reader.number 2 2
  let nano ← Reader.fraction
  let offset ← Reader.offset (Reader.oneOf [':'])
  (ofLocal? ⟨year, month, day⟩ hour minute second nano offset : Option Moment)

/-- Takes the offset of a data file's moment: `UTC`, or one whose separator may be blanks and
colons. -/
def lenientOffset : Reader Int := do
  let cs ← get
  if Text.upper (String.ofList (cs.take 3)) = "UTC" then
    set (cs.drop 3)
    return 0
  else Reader.offset (modify (List.dropWhile fun c => c == ':' || Text.isBlank c))

/-- Takes a data file's moment. -/
def lenient : Reader Moment := do
  let part (width : Nat) (mark : Char) : Reader Nat := do
    Reader.blanks
    Reader.oneOf [mark]
    Reader.blanks
    Reader.number 1 width
  Reader.blanks
  let year ← Reader.year
  let month ← part 2 '-'
  let day ← part 2 '-'
  Reader.oneOf ['T', 't', ' ']
  Reader.blanks
  let hour ← Reader.number 1 2
  let minute ← part 2 ':'
  let second ← part 2 ':'
  let nano ← Reader.fraction
  Reader.blanks
  let offset ← lenientOffset
  Reader.blanks
  (ofLocal? ⟨year, month, day⟩ hour minute second nano offset : Option Moment)

/-- What a reader takes from a whole text. -/
def readAll (r : Reader Moment) (s : String) : Option Moment :=
  match r.run s.toList with
  | some (m, []) => some m
  | _ => none

/-- The moment that an RFC 3339 text tells. -/
def ofStrict? (s : String) : Option Moment := readAll strict s

/-- The moment that a text of a data file tells. -/
def ofLenient? (s : String) : Option Moment := readAll lenient s

end MetricBoard.Moment
