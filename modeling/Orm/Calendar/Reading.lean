import Orm.Calendar.DateTime
import Orm.Number.Integer
import Orm.Text.Words

/-
Reading dates and times from text.

A pattern is a list of `Item`s. Numbers may have blanks before them and fewer digits than usual;
a year with a sign may have more. `rfc3339?` is stricter: all fields have their full width and an
offset ends the text.
-/

namespace Orm.Calendar

open Number (isDigit digitsValue)

/-- A piece of a pattern. -/
inductive Item where
  | year
  | month
  | day
  | hour
  | minute
  | second
  /-- An optional point with decimal places; places beyond the ninth are dropped. -/
  | fraction
  | literal (c : Char)
  | blanks
  deriving DecidableEq, Repr

/-- What a pattern has read. -/
structure Fields where
  year : Int := 0
  month : Nat := 0
  day : Nat := 0
  hour : Nat := 0
  minute : Nat := 0
  second : Nat := 0
  nanos : Nat := 0
  deriving DecidableEq, Repr

/-- Up to `most` digits, at least one, and the rest. -/
def number? (most : Nat) (cs : List Char) : Option (Nat × List Char) :=
  let ds := (cs.take most).takeWhile isDigit
  if ds.isEmpty then none else some (digitsValue ds, cs.drop ds.length)

/-- Exactly `width` digits and the rest. -/
def fixed? (width : Nat) (cs : List Char) : Option (Nat × List Char) :=
  let ds := (cs.take width).takeWhile isDigit
  if ds.length = width then some (digitsValue ds, cs.drop width) else none

def skipBlanks (cs : List Char) : List Char :=
  cs.dropWhile Text.isBlank

/-- Decimal places as nanoseconds. -/
def places? (cs : List Char) : Option (Nat × List Char) :=
  let ds := cs.takeWhile isDigit
  if ds.isEmpty then none
  else
    let kept := ds.take 9
    some (digitsValue kept * Nat.pow 10 (9 - kept.length), cs.drop ds.length)

def signedYear? (cs : List Char) : Option (Int × List Char) :=
  match cs with
  | '-' :: rest => (number? rest.length rest).map fun (n, r) => (-(n : Int), r)
  | '+' :: rest => (number? rest.length rest).map fun (n, r) => ((n : Int), r)
  | _ => (number? 4 cs).map fun (n, r) => ((n : Int), r)

def Item.read? (f : Fields) (cs : List Char) : Item → Option (Fields × List Char)
  | .year => (signedYear? (skipBlanks cs)).map fun (n, r) => ({ f with year := n }, r)
  | .month => (number? 2 (skipBlanks cs)).map fun (n, r) => ({ f with month := n }, r)
  | .day => (number? 2 (skipBlanks cs)).map fun (n, r) => ({ f with day := n }, r)
  | .hour => (number? 2 (skipBlanks cs)).map fun (n, r) => ({ f with hour := n }, r)
  | .minute => (number? 2 (skipBlanks cs)).map fun (n, r) => ({ f with minute := n }, r)
  | .second => (number? 2 (skipBlanks cs)).map fun (n, r) => ({ f with second := n }, r)
  | .fraction =>
    match cs with
    | '.' :: rest => (places? rest).map fun (n, r) => ({ f with nanos := n }, r)
    | _ => some (f, cs)
  | .literal c =>
    match cs with
    | [] => none
    | d :: rest => if c = d then some (f, rest) else none
  | .blanks => some (f, skipBlanks cs)

def readItems? : List Item → Fields → List Char → Option (Fields × List Char)
  | [], f, cs => some (f, cs)
  | item :: items, f, cs => (item.read? f cs).bind fun (f, rest) => readItems? items f rest

/-- A pattern that has to take the whole text. -/
def readAll? (items : List Item) (cs : List Char) : Option Fields :=
  match readItems? items {} cs with
  | some (f, []) => some f
  | _ => none

def Fields.date? (f : Fields) : Option Date :=
  Date.of? f.year f.month f.day

def Fields.time? (f : Fields) : Option Time :=
  Time.ofClock? f.hour f.minute f.second f.nanos

def Fields.dateTime? (f : Fields) : Option DateTime := do
  return ⟨← f.date?, ← f.time?⟩

def dateItems : List Item :=
  [.year, .literal '-', .month, .literal '-', .day]

def minuteItems : List Item :=
  [.hour, .literal ':', .minute]

def timeItems : List Item :=
  minuteItems ++ [.literal ':', .second, .fraction]

def date? (cs : List Char) : Option Date :=
  (readAll? dateItems cs).bind Fields.date?

/-- A time of day with or without seconds. -/
def time? (cs : List Char) : Option Time :=
  ((readAll? timeItems cs).bind Fields.time?).or ((readAll? minuteItems cs).bind Fields.time?)

/-! ## Offsets -/

def colon? : List Char → Option (List Char)
  | ':' :: rest => some rest
  | _ => none

/-- A sign, two digits of hours, a separator that `colon` takes, two digits of minutes; or `Z`. -/
def offset? (colon : List Char → Option (List Char)) : List Char → Option (Int × List Char)
  | [] => none
  | c :: rest =>
    if c = 'Z' ∨ c = 'z' then some (0, rest)
    else if c = '+' ∨ c = '-' ∨ c = '−' then do
      let (hours, rest) ← fixed? 2 rest
      let rest ← colon rest
      let (minutes, rest) ← fixed? 2 rest
      if 60 ≤ minutes then none else
      let seconds : Int := (hours * 3600 + minutes * 60 : Nat)
      return (if c = '+' then seconds else -seconds, rest)
    else none

def isDateEnd (c : Char) : Bool :=
  c == 'T' || c == 't' || c == ' '

/-- The point in UTC that a full date, time and offset name. -/
def rfc3339? (cs : List Char) : Option DateTime := do
  let (year, cs) ← fixed? 4 cs
  let (_, cs) ← Item.read? {} cs (.literal '-')
  let (month, cs) ← fixed? 2 cs
  let (_, cs) ← Item.read? {} cs (.literal '-')
  let (day, cs) ← fixed? 2 cs
  match cs with
  | [] => none
  | c :: cs =>
    if !isDateEnd c then none else
    let (hour, cs) ← fixed? 2 cs
    let cs ← colon? cs
    let (minute, cs) ← fixed? 2 cs
    let cs ← colon? cs
    let (second, cs) ← fixed? 2 cs
    let (f, cs) ← Item.read? { year, month, day, hour, minute, second } cs .fraction
    let (offset, cs) ← offset? colon? cs
    if !cs.isEmpty || 86340 < offset.natAbs then none
    else (← f.dateTime?).toUtc? offset

/-! ## Texts of columns -/

/-- The forms in which a column's text may hold a date and a time. -/
def columnItems : List (List Item) :=
  [dateItems ++ [.blanks] ++ timeItems, dateItems ++ [.literal 'T'] ++ timeItems,
   dateItems ++ [.blanks] ++ minuteItems]

/-- A date and time as columns hold them: with an offset, without one, or the date alone. -/
def columnDateTime? (cs : List Char) : Option DateTime :=
  ((rfc3339? cs).or
    (columnItems.findSome? fun items => (readAll? items cs).bind Fields.dateTime?)).or
    ((date? cs).map fun d => ⟨d, Time.midnight⟩)

/-! ## Texts of documents -/

def spacedDate : List Item :=
  [.year, .blanks, .literal '-', .month, .blanks, .literal '-', .day]

def spacedMinute : List Item :=
  [.hour, .blanks, .literal ':', .minute]

def spacedSecond : List Item :=
  [.blanks, .literal ':', .second, .fraction, .blanks]

def documentDate? (cs : List Char) : Option Date :=
  (readAll? (spacedDate ++ [.blanks]) cs).bind Fields.date?

def documentDateTime? (cs : List Char) : Option DateTime :=
  (readAll? (spacedDate ++ [.blanks, .literal 'T'] ++ spacedMinute ++ spacedSecond) cs).bind
    Fields.dateTime?

/-- The seconds may be missing as a whole. -/
def documentTime? (cs : List Char) : Option Time := do
  let (f, rest) ← readItems? spacedMinute {} cs
  let (f, rest) := (readItems? spacedSecond f rest).getD (f, rest)
  if (skipBlanks rest).isEmpty then f.time? else none

def separators (cs : List Char) : List Char :=
  cs.dropWhile fun c => c == ':' || Text.isBlank c

/-- A date and time that name their zone, blanks allowed between the parts. -/
def documentUtc? (cs : List Char) : Option DateTime := do
  let (f, rest) ← readItems? spacedDate {} cs
  match rest with
  | [] => none
  | c :: rest =>
    if !isDateEnd c then none else
    let (f, rest) ← readItems? (spacedMinute ++ spacedSecond) f rest
    let rest := skipBlanks rest
    let (offset, rest) ←
      if (rest.take 3).map Char.toUpper == ['U', 'T', 'C'] then some (0, rest.drop 3)
      else offset? (fun cs => some (separators cs)) rest
    if !(skipBlanks rest).isEmpty || 86400 ≤ offset.natAbs then none
    else (← f.dateTime?).toUtc? offset

end Orm.Calendar
