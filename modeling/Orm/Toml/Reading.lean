import Orm.Bytes
import Orm.Calendar.Date
import Orm.Number.Decimal
import Orm.Toml.Table

/-
Reading TOML documents.

Every reader takes characters from the front and gives what it read with the rest. Dates and times are
read as the text in which they are written again.
-/

namespace Orm.Toml

open Number (isDigit)

abbrev Reader (α : Type) := List Char → Option (α × List Char)

/-! ## Blanks and comments -/

def isBlank (c : Char) : Bool := c == ' ' || c == '\t'

/-- Whether a character may stand in a line of a comment or of a string. -/
def isPlain (c : Char) : Bool := c == '\t' || (0x20 ≤ c.toNat && c.toNat != 0x7F)

def skipBlank (cs : List Char) : List Char := cs.dropWhile isBlank

def newline? : List Char → Option (List Char)
  | '\n' :: cs => some cs
  | '\r' :: '\n' :: cs => some cs
  | _ => none

/-- Blanks, line ends and comments. -/
def skipLines : Nat → List Char → List Char
  | 0, cs => cs
  | fuel + 1, cs =>
    match cs with
    | ' ' :: rest | '\t' :: rest | '\n' :: rest | '\r' :: '\n' :: rest => skipLines fuel rest
    | '#' :: rest => skipLines fuel (rest.dropWhile isPlain)
    | _ => cs

def skipAll (cs : List Char) : List Char := skipLines (cs.length + 1) cs

/-- The rest of a line after a statement, which may be a comment. -/
def endLine? (cs : List Char) : Option (List Char) :=
  let rest := match skipBlank cs with
    | '#' :: rest => rest.dropWhile isPlain
    | rest => rest
  if rest.isEmpty then some [] else newline? rest

def expect? (word : List Char) (cs : List Char) : Option (List Char) :=
  if word.isPrefixOf cs then some (cs.drop word.length) else none

/-! ## Strings -/

def codePoint? (digits : Nat) : Reader Char := fun cs => do
  let ds := cs.take digits
  if ds.length != digits then none else
  let n ← Text.hexNat? ds
  if n.isValidChar then return (Char.ofNat n, cs.drop digits) else none

def escape? : Reader Char
  | 'u' :: cs => codePoint? 4 cs
  | 'U' :: cs => codePoint? 8 cs
  | 'b' :: cs => some ('\x08', cs)
  | 't' :: cs => some ('\t', cs)
  | 'n' :: cs => some ('\n', cs)
  | 'f' :: cs => some ('\x0c', cs)
  | 'r' :: cs => some ('\r', cs)
  | c :: cs => if c = '\x22' ∨ c = '\\' then some (c, cs) else none
  | [] => none

/-- The rest of a string of one line, with the characters read so far reversed. -/
def readLine (quote : Char) (escapes : Bool) : Nat → List Char → Reader String
  | 0, _, _ => none
  | _, _, [] => none
  | fuel + 1, acc, c :: cs =>
    if c = quote then some (String.ofList acc.reverse, cs)
    else if escapes && c == '\\' then
      (escape? cs).bind fun (e, cs) => readLine quote escapes fuel (e :: acc) cs
    else if isPlain c then readLine quote escapes fuel (c :: acc) cs
    else none

/-- A line end that a backslash hides, with the blanks after it. -/
def hiddenLine? (cs : List Char) : Option (List Char) :=
  (newline? (skipBlank cs)).map fun rest =>
    let rec skip : Nat → List Char → List Char
      | 0, cs => cs
      | fuel + 1, cs =>
        match newline? (skipBlank cs) with
        | some rest => skip fuel rest
        | none => skipBlank cs
    skip rest.length rest

/-- The rest of a string of several lines. Up to two quotes may stand before the closing three. -/
def readLines (quote : Char) (escapes : Bool) : Nat → List Char → Reader String
  | 0, _, _ => none
  | _, _, [] => none
  | fuel + 1, acc, c :: cs =>
    if c = quote then
      let run := ((c :: cs).takeWhile (· == quote)).length
      if run < 3 then readLines quote escapes fuel (c :: acc) cs
      else
        let extra := min (run - 3) 2
        some (String.ofList (List.replicate extra quote ++ acc).reverse, cs.drop (extra + 2))
    else if escapes && c == '\\' then
      match hiddenLine? cs with
      | some rest => readLines quote escapes fuel acc rest
      | none => (escape? cs).bind fun (e, cs) => readLines quote escapes fuel (e :: acc) cs
    else
      match newline? (c :: cs) with
      | some rest => readLines quote escapes fuel ('\n' :: acc) rest
      | none => if isPlain c then readLines quote escapes fuel (c :: acc) cs else none

/-- A string of one line after its quote. -/
def lineString (quote : Char) (cs : List Char) : Option (String × List Char) :=
  readLine quote (quote == '\x22') (cs.length + 1) [] cs

/-- A string of either form, its first quote taken. -/
def anyString (quote : Char) (cs : List Char) : Option (String × List Char) :=
  match expect? [quote, quote] cs with
  | some rest =>
    let body := (newline? rest).getD rest
    readLines quote (quote == '\x22') (body.length + 1) [] body
  | none => lineString quote cs

/-! ## Keys -/

def isBare (c : Char) : Bool :=
  isDigit c || c == '_' || c == '-' || ('a' ≤ c && c ≤ 'z') || ('A' ≤ c && c ≤ 'Z')

def simpleKey : Reader String
  | [] => none
  | c :: cs =>
    if c = '\x22' ∨ c = '\'' then lineString c cs
    else
      let word := (c :: cs).takeWhile isBare
      if word.isEmpty then none else some (String.ofList word, (c :: cs).drop word.length)

/-- How deeply values and keys may nest. -/
def maxDepth : Nat := 79

/-- The parts of a key, at least one, with blanks around the points. -/
def readKey : Nat → Reader (List String × String)
  | 0, _ => none
  | fuel + 1, cs => do
    let (part, rest) ← simpleKey (skipBlank cs)
    match skipBlank rest with
    | '.' :: rest =>
      let ((path, key), rest) ← readKey fuel rest
      return ((part :: path, key), rest)
    | rest => return (([], part), rest)

def key : Reader (List String × String) := readKey maxDepth

/-! ## Numbers and times -/

/-- Digits with single underscores between them; the underscores are dropped. -/
def readDigits (isDigit : Char → Bool) : List Char → Option (List Char × List Char)
  | [] => none
  | [d] => if isDigit d then some ([d], []) else none
  | d :: '_' :: rest =>
    if isDigit d then (readDigits isDigit rest).map fun (ds, rest) => (d :: ds, rest) else none
  | d :: c :: rest =>
    if !isDigit d then none
    else if isDigit c then (readDigits isDigit (c :: rest)).map fun (ds, rest) => (d :: ds, rest)
    else some ([d], c :: rest)

/-- A whole number without a leading zero. -/
def whole? : Reader (List Char)
  | '0' :: cs => some (['0'], cs)
  | cs => readDigits isDigit cs

def sign : List Char → List Char × List Char
  | '+' :: cs => ([], cs)
  | '-' :: cs => (['-'], cs)
  | cs => ([], cs)

def exponentPart? : Reader (List Char)
  | c :: cs =>
    if c = 'e' ∨ c = 'E' then
      let (s, cs) := sign cs
      (readDigits isDigit cs).map fun (ds, rest) => ('e' :: s ++ ds, rest)
    else none
  | [] => none

/-- The fraction and the exponent of a float, of which one has to be there. -/
def floatTail? : Reader (List Char)
  | '.' :: cs => do
    let (ds, rest) ← readDigits isDigit cs
    match rest with
    | 'e' :: _ | 'E' :: _ =>
      let (e, rest) ← exponentPart? rest
      return ('.' :: ds ++ e, rest)
    | _ => return ('.' :: ds, rest)
  | cs => exponentPart? cs

def ofFloat? (cs : List Char) : Option Json := do
  let x ← Number.float? (String.ofList cs)
  if x == .infinity false then none else return Json.ofFloat x

def inRange? (n : Int) : Option Json :=
  if (Number.IntRange.signed 64).contains n then some (.number (.integer n)) else none

def radixNumber? (radix : Nat) (cs : List Char) : Option (Json × List Char) := do
  let isDigit (c : Char) := (Text.hexValue? c).any (· < radix)
  let (ds, rest) ← readDigits isDigit cs
  let n := ds.foldl (fun n c => radix * n + (Text.hexValue? c).getD 0) 0
  return (← inRange? n, rest)

def number? (cs : List Char) : Option (Json × List Char) :=
  match cs with
  | '0' :: 'x' :: rest => radixNumber? 16 rest
  | '0' :: 'o' :: rest => radixNumber? 8 rest
  | '0' :: 'b' :: rest => radixNumber? 2 rest
  | _ =>
    let (s, body) := sign cs
    if ['i', 'n', 'f'].isPrefixOf body || ['n', 'a', 'n'].isPrefixOf body then
      some (.null, body.drop 3)
    else do
      let (ds, rest) ← whole? body
      match rest with
      | '.' :: _ | 'e' :: _ | 'E' :: _ =>
        let (tail, rest) ← floatTail? rest
        return (← ofFloat? (s ++ ds ++ tail), rest)
      | _ =>
        let n : Int := Number.digitsValue ds
        return (← inRange? (if s.isEmpty then n else -n), rest)

/-- So many digits that give a number between two bounds. -/
def bounded? (width lo hi : Nat) (cs : List Char) : Option (Nat × List Char) :=
  let ds := cs.take width
  let n := Number.digitsValue ds
  if ds.length = width && ds.all isDigit && lo ≤ n && n ≤ hi then some (n, cs.drop width) else none

def dateText? : Reader String := fun cs => do
  let (year, cs) ← bounded? 4 0 9999 cs
  let (month, cs) ← bounded? 2 1 12 (← expect? ['-'] cs)
  let (day, cs) ← bounded? 2 1 31 (← expect? ['-'] cs)
  let d ← Calendar.Date.of? year month day
  return (d.text, cs)

/-- The fraction of a second, of which nine digits count and zeros at the end are dropped. -/
def fractionText (ds : List Char) : String :=
  let places := ((ds.take 9).reverse.dropWhile (· == '0')).reverse
  if places.isEmpty then "" else String.ofList ('.' :: places)

def timeText? : Reader String := fun cs => do
  let (hour, cs) ← bounded? 2 0 23 cs
  let (minute, cs) ← bounded? 2 0 59 (← expect? [':'] cs)
  let (second, cs) ← bounded? 2 0 60 (← expect? [':'] cs)
  let (fraction, cs) := match cs with
    | '.' :: rest =>
      let ds := rest.takeWhile isDigit
      if ds.isEmpty then ("", cs) else (fractionText ds, rest.drop ds.length)
    | _ => ("", cs)
  let two := Calendar.twoDigits
  return (two hour ++ ":" ++ two minute ++ ":" ++ two second ++ fraction, cs)

/-- The offset after a time: none, `Z`, or hours and minutes with a sign. -/
def offsetText? : Reader String
  | 'Z' :: cs | 'z' :: cs => some ("Z", cs)
  | c :: cs =>
    if c = '+' ∨ c = '-' then do
      let (hour, cs) ← bounded? 2 0 23 cs
      let (minute, cs) ← bounded? 2 0 59 (← expect? [':'] cs)
      let sign := if c = '-' && hour + minute != 0 then "-" else "+"
      return (sign ++ Calendar.twoDigits hour ++ ":" ++ Calendar.twoDigits minute, cs)
    else some ("", c :: cs)
  | [] => some ("", [])

/-- A date, a time, or both, in which case an offset may follow. -/
def dateTimeText? (cs : List Char) : Option (String × List Char) :=
  match dateText? cs with
  | none => timeText? cs
  | some (date, rest) =>
    let after := match rest with
      | 'T' :: after | 't' :: after | ' ' :: after => timeText? after
      | _ => none
    match after with
    | none => some (date, rest)
    | some (time, rest) => (offsetText? rest).map fun (offset, rest) =>
        (date ++ "T" ++ time ++ offset, rest)

/-! ## Values -/

/-- A date or time is told from a number by what follows its first digits. -/
def looksLikeTime (cs : List Char) : Bool :=
  let ds := cs.takeWhile isDigit
  (ds.length == 4 && cs[4]? == some '-') || (ds.length == 2 && cs[2]? == some ':')

def scalar? (cs : List Char) : Option (Json × List Char) :=
  match cs with
  | 't' :: rest => (expect? ['r', 'u', 'e'] rest).map (.bool true, ·)
  | 'f' :: rest => (expect? ['a', 'l', 's', 'e'] rest).map (.bool false, ·)
  | _ =>
    if looksLikeTime cs then (dateTimeText? cs).map fun (s, rest) => (.string s, rest)
    else number? cs

mutual
def readValue : Nat → Nat → Reader Json
  | 0, _, _ => none
  | fuel + 1, depth, cs =>
    match cs with
    | [] => none
    | c :: rest =>
      if c = '\x22' ∨ c = '\'' then (anyString c rest).map fun (s, rest) => (.string s, rest)
      else if c = '[' then
        if depth = 0 then none else readItems fuel (depth - 1) [] (skipAll rest)
      else if c = '\x7b' then
        if depth = 0 then none else
        match skipBlank rest with
        | [] => none
        | d :: more =>
          if d = '\x7d' then some (.object [], more) else readEntries fuel (depth - 1) [] (d :: more)
      else scalar? cs

/-- The items of an array and its end; a comma may stand after the last one. -/
def readItems : Nat → Nat → List Json → Reader Json
  | 0, _, _, _ => none
  | fuel + 1, depth, acc, cs =>
    match cs with
    | ']' :: rest => some (.array acc.reverse, rest)
    | _ => do
      let (item, rest) ← readValue fuel depth cs
      match skipAll rest with
      | ',' :: rest => readItems fuel depth (item :: acc) (skipAll rest)
      | ']' :: rest => return (.array (item :: acc).reverse, rest)
      | _ => none

/-- The keys and values of a table in braces and its end. -/
def readEntries : Nat → Nat → List (List String × String × Json) → Reader Json
  | 0, _, _, _ => none
  | fuel + 1, depth, acc, cs => do
    let ((path, name), rest) ← key cs
    let rest ← expect? ['='] rest
    let (value, rest) ← readValue fuel depth (skipBlank rest)
    let acc := (path, name, value) :: acc
    match skipBlank rest with
    | [] => none
    | c :: rest =>
      if c = ',' then readEntries fuel depth acc rest
      else if c = '\x7d' then (inline? acc.reverse).map (·, rest)
      else none
end

def value? (cs : List Char) : Option (Json × List Char) :=
  readValue (2 * cs.length + 2) maxDepth cs

/-! ## Documents -/

def statement? : Reader Statement
  | '[' :: '[' :: cs => do
    let ((path, name), rest) ← key cs
    return (.arrayHeader path name, ← expect? [']', ']'] rest)
  | '[' :: cs => do
    let ((path, name), rest) ← key cs
    return (.header path name, ← expect? [']'] rest)
  | cs => do
    let ((path, name), rest) ← key cs
    let rest ← expect? ['='] rest
    let (value, rest) ← value? (skipBlank rest)
    return (.entry path name value, rest)

def statements? : Nat → List Char → Option (List Statement)
  | 0, _ => none
  | fuel + 1, cs =>
    match skipAll cs with
    | [] => some []
    | cs => do
      let (s, rest) ← statement? cs
      return s :: (← statements? fuel (← endLine? rest))

/-- The document of a text as an object; a byte order mark may come first. -/
def read? (s : String) : Option Json := do
  let cs := match s.toList with
    | '\uFEFF' :: cs => cs
    | cs => cs
  assemble? (← statements? (cs.length + 1) cs)

end Orm.Toml
