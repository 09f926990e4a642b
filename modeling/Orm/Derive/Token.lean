import Orm.Text.Name
import Orm.Text.Quoted
import Orm.Text.Words

/-
Tokens of source text: names, lifetimes, literals and punctuation, and the texts among the literals of
the code that is made from a declaration.

Blanks and comments stand between tokens and belong to none. The punctuation `::` and `->` is one
token each; every other mark is a token of its own.
-/

namespace Orm.Derive

abbrev Token := String

abbrev Tokens := List Token

namespace Tokens

/-! ## Blanks and comments -/

/-- What stands behind the comments of which `depth` are open; comments nest. -/
def commentEnd? : (depth : Nat) → List Char → Option (List Char)
  | 0, cs => some cs
  | _ + 1, [] => none
  | depth + 1, '*' :: '/' :: cs => commentEnd? depth cs
  | depth + 1, '/' :: '*' :: cs => commentEnd? (depth + 2) cs
  | depth + 1, _ :: cs => commentEnd? (depth + 1) cs

/-- Whether a comment documents what follows it. -/
def documents : List Char → Bool
  | '/' :: '/' :: '/' :: '/' :: _ => false
  | '/' :: '/' :: '/' :: _ => true
  | '/' :: '/' :: '!' :: _ => true
  | '/' :: '*' :: '*' :: '*' :: _ => false
  | '/' :: '*' :: '*' :: '/' :: _ => false
  | '/' :: '*' :: '*' :: _ => true
  | '/' :: '*' :: '!' :: _ => true
  | _ => false

def isSpace (c : Char) : Bool :=
  Text.isBlank c || c == '\u200e' || c == '\u200f'

/-- A text without the blanks and comments at its start, which may not document anything. -/
def skipBlank? : Nat → List Char → Option (List Char)
  | 0, cs => some cs
  | fuel + 1, cs =>
    if documents cs then none
    else
      match cs with
      | '/' :: '/' :: rest => skipBlank? fuel (rest.dropWhile (· != '\n'))
      | '/' :: '*' :: rest => do skipBlank? fuel (← commentEnd? 1 rest)
      | c :: rest => if isSpace c then skipBlank? fuel rest else some cs
      | [] => some []

/-! ## Literals -/

/-- A token that has been begun, and the text behind it. -/
abbrev Cut := List Char × List Char

def Cut.after (begun : List Char) (c : Cut) : Cut :=
  (begun ++ c.1, c.2)

/-- A quoted text up to its end; a backslash takes the next character with it. -/
def quotedEnd? (quote : Char) : List Char → Option Cut
  | [] => none
  | '\\' :: c :: cs => (quotedEnd? quote cs).map (Cut.after ['\\', c])
  | c :: cs => if c = quote then some ([c], cs) else (quotedEnd? quote cs).map (Cut.after [c])

/-- A raw text up to the first quote that is followed by the given marks. -/
def rawEnd? (marks : List Char) : List Char → Option Cut
  | [] => none
  | c :: cs =>
    if c = '\x22' && marks.isPrefixOf cs then some (c :: marks, cs.drop marks.length)
    else (rawEnd? marks cs).map (Cut.after [c])

/-- A raw text with as many `#` before it as behind it. -/
def raw? (cs : List Char) : Option Cut :=
  let marks := cs.takeWhile (· == '#')
  match cs.drop marks.length with
  | '\x22' :: rest => (rawEnd? marks rest).map (Cut.after (marks ++ ['\x22']))
  | _ => none

/-- A character in single quotes, behind the first of them. -/
def character? : List Char → Option Cut
  | '\\' :: cs => quotedEnd? '\x27' ('\\' :: cs)
  | c :: '\x27' :: cs => some ([c, '\x27'], cs)
  | _ => none

/-- The name that a text goes on with. -/
def nameCut (cs : List Char) : Cut :=
  if cs.head?.any Text.isNameStart then cs.span Text.isNamePart else ([], cs)

/-- A literal that is quoted, with the name that may be joined to it. -/
def quotedLiteral? (cs : List Char) : Option Cut := do
  let (token, rest) ←
    match cs with
    | '\x22' :: cs => (quotedEnd? '\x22' cs).map (Cut.after ['\x22'])
    | '\x27' :: cs => (character? cs).map (Cut.after ['\x27'])
    | 'b' :: '\x22' :: cs => (quotedEnd? '\x22' cs).map (Cut.after ['b', '\x22'])
    | 'c' :: '\x22' :: cs => (quotedEnd? '\x22' cs).map (Cut.after ['c', '\x22'])
    | 'b' :: '\x27' :: cs => (character? cs).map (Cut.after ['b', '\x27'])
    | 'r' :: cs => (raw? cs).map (Cut.after ['r'])
    | 'b' :: 'r' :: cs => (raw? cs).map (Cut.after ['b', 'r'])
    | 'c' :: 'r' :: cs => (raw? cs).map (Cut.after ['c', 'r'])
    | _ => none
  return (nameCut rest).after token

def isDecimal (cs : List Char) : Bool :=
  cs.all fun c => c.isDigit || c == '_'

/-- Digits with a fraction, if one follows. -/
def fractionCut (whole rest : List Char) : Cut :=
  match rest with
  | '.' :: behind =>
    if isDecimal whole && !(behind.head?.any fun c => c == '.' || Text.isNameStart c) then
      Cut.after (whole ++ ['.']) (behind.span Text.isNamePart)
    else (whole, rest)
  | _ => (whole, rest)

/-- Whether digits end in the mark of an exponent. -/
def asksExponent (digits : List Char) : Bool :=
  match digits.reverse with
  | 'e' :: before | 'E' :: before => before.all fun c => c.isDigit || c == '_' || c == '.'
  | _ => false

/-- A number at the start of a text, with the sign of its exponent and the name of its type. -/
def number (cs : List Char) : Cut :=
  let (whole, rest) := cs.span Text.isNamePart
  let (digits, rest) := fractionCut whole rest
  match rest with
  | sign :: behind =>
    if (sign == '+' || sign == '-') && asksExponent digits && behind.head?.any Char.isDigit then
      Cut.after (digits ++ [sign]) (behind.span Text.isNamePart)
    else (digits, rest)
  | [] => (digits, [])

/-! ## Reading -/

def isPunctuation (c : Char) : Bool :=
  "~!@#$%^&*-=+|;:,<.>/?()[]\x7b\x7d".toList.contains c

/-- The words that stand for a place in a path or for nothing, and are no names even when marked so. -/
def neverNames : List Token := ["_", "super", "self", "Self", "crate"]

/-- A name that may be marked as one by `r#`. -/
def name? : List Char → Option Cut
  | 'r' :: '#' :: cs =>
    let (word, rest) := nameCut cs
    if word.isEmpty || neverNames.contains (String.ofList word) then none
    else some ('r' :: '#' :: word, rest)
  | cs =>
    let (word, rest) := nameCut cs
    if word.isEmpty then none else some (word, rest)

/-- The first token of a text that does not begin with a blank. -/
def next? (cs : List Char) : Option Cut :=
  match quotedLiteral? cs with
  | some c => some c
  | none =>
    match cs with
    | [] => none
    | ':' :: ':' :: rest => some ([':', ':'], rest)
    | '-' :: '>' :: rest => some (['-', '>'], rest)
    | '\x27' :: rest => (name? rest).map (Cut.after ['\x27'])
    | c :: rest =>
      if c.isDigit then some (number cs)
      else if isPunctuation c then some ([c], rest)
      else name? cs

/-- As many steps as there are characters always suffice. -/
def readFrom? : Nat → List Char → Option Tokens
  | 0, _ => some []
  | fuel + 1, cs => do
    match ← skipBlank? (fuel + 1) cs with
    | [] => some []
    | cs =>
      let (token, rest) ← next? cs
      return String.ofList token :: (← readFrom? fuel rest)

def opens (t : Token) : Bool :=
  ["(", "[", "\x7b"].contains t

def closes (t : Token) : Bool :=
  [")", "]", "\x7d"].contains t

def closing (t : Token) : Token :=
  if t = "(" then ")" else if t = "[" then "]" else "\x7d"

/-- Whether all brackets are closed in turn, those awaited included. -/
def isBalanced : (awaited : List Token) → Tokens → Bool
  | awaited, [] => awaited.isEmpty
  | awaited, t :: ts =>
    if opens t then isBalanced (closing t :: awaited) ts
    else if closes t then awaited.head? == some t && isBalanced awaited.tail ts
    else isBalanced awaited ts

def read? (s : String) : Option Tokens := do
  let ts ← readFrom? (s.length + 1) s.toList
  if isBalanced [] ts then some ts else none

/-! ## Kinds of tokens -/

def hasQuote (cs : List Char) : Bool :=
  cs.any fun c => c == '\x22' || c == '\x27'

def isWord (t : Token) : Bool :=
  t.toList.head?.any Text.isNameStart && !hasQuote t.toList

def isLifetime (t : Token) : Bool :=
  match t.toList with
  | '\x27' :: cs => !hasQuote cs
  | _ => false

def isNumber (t : Token) : Bool :=
  t.toList.head?.any Char.isDigit

def isLiteral (t : Token) : Bool :=
  t == "true" || t == "false" || isNumber t || (hasQuote t.toList && !isLifetime t)

/-- The words that cannot be names. -/
def reserved : List Token :=
  ["_", "abstract", "as", "async", "await", "become", "box", "break", "const", "continue", "crate",
   "do", "dyn", "else", "enum", "extern", "false", "final", "fn", "for", "if", "impl", "in", "let",
   "loop", "macro", "match", "mod", "move", "mut", "override", "priv", "pub", "ref", "return", "Self",
   "self", "static", "struct", "super", "trait", "true", "try", "type", "typeof", "unsafe", "unsized",
   "use", "virtual", "where", "while", "yield"]

def isName (t : Token) : Bool :=
  isWord t && !reserved.contains t

/-! ## Texts -/

/-- A text as a literal; a zero before an octal digit is written so that it does not join it. -/
def escaped : List Char → List Char
  | [] => []
  | c :: rest =>
    (if c = '\x00' && rest.head?.any (fun d => '0' ≤ d && d ≤ '7') then ['\\', 'x', '0', '0']
     else Text.escapeChar c) ++ escaped rest

def literal (s : String) : Token :=
  "\"" ++ String.ofList (escaped s.toList) ++ "\""

end Tokens

end Orm.Derive
