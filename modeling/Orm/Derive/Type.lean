import Orm.Derive.Token

/-
Types and paths as lists of tokens.

A type is taken to be well formed, and only one thing is asked of it: whether it is a given wrapper
around another type. A path is read from a text that may be anything, so its grammar is followed to
the end; only the expressions in it, which are lengths and blocks, are not looked into.
-/

namespace Orm.Derive

namespace Tokens

/-! ## Structure -/

/-- The pieces between the occurrences of `sep` that stand within no brackets. -/
def piecesIn (sep : Token) : (groups angles : Nat) → Tokens → List Tokens
  | _, _, [] => [[]]
  | groups, angles, t :: ts =>
    if t = sep ∧ groups = 0 ∧ angles = 0 then [] :: piecesIn sep 0 0 ts
    else
      let angles :=
        if groups ≠ 0 then angles
        else if t = "<" then angles + 1
        else if t = ">" then angles - 1
        else angles
      let groups := if opens t then groups + 1 else if closes t then groups - 1 else groups
      match piecesIn sep groups angles ts with
      | [] => [[t]]
      | p :: ps => (t :: p) :: ps

def pieces (sep : Token) (ts : Tokens) : List Tokens :=
  piecesIn sep 0 0 ts

/-- Whether no `sep` stands outside brackets. -/
def isWhole (sep : Token) (ts : Tokens) : Bool :=
  (pieces sep ts).length == 1

/-- What stands in the angle brackets that enclose all tokens. -/
def enclosed? : Tokens → Option Tokens
  | "<" :: rest => if rest.getLast? = some ">" then some rest.dropLast else none
  | _ => none

/-- The reserved words that a path may begin with. -/
def places : List Token := ["crate", "self", "Self", "super"]

/-- Whether a type that begins so is a path, unless it is a sum. -/
def beginsPath (t : Token) : Bool :=
  t == "::" || t == "<" || isName t || places.contains t

/-- The last name of a path, with the arguments in its angle brackets. -/
def lastSegment? (type : Tokens) : Option (Token × Tokens) := do
  if !type.head?.any beginsPath || !isWhole "+" type || !isWhole "->" type then none
  else
    match (pieces "::" type).reverse with
    | (name :: "<" :: rest) :: _ => return (name, ← enclosed? ("<" :: rest))
    | last :: [name] :: _ => return (name, ← enclosed? last)
    | _ => none

/-- Whether an argument is a type, and not a lifetime, a constant or a constraint. -/
def isType : Tokens → Bool
  | [] => false
  | t :: ts =>
    if isLifetime t then ts.head? == some "+"
    else !(isLiteral t || t == "-" || t == "\x7b") && isWhole "=" ts && isWhole ":" ts

/-- The type that a wrapper holds, if the type is that wrapper. -/
def argument? (wrapper : Token) (type : Tokens) : Option Tokens := do
  let (name, args) ← lastSegment? type
  if name ≠ wrapper then none
  else
    let first ← (pieces "," args).head?
    if isType first then some first else none

def hasInfix (part : List Char) : List Char → Bool
  | [] => part.isEmpty
  | c :: cs => part.isPrefixOf (c :: cs) || hasInfix part cs

/-- Whether some token of a type has a text in it. -/
def mentions (part : String) (type : Tokens) : Bool :=
  type.any fun t => hasInfix part.toList t.toList

/-! ## Text -/

/-- Arguments with the lifetimes among them first; each keeps the comma that follows it. -/
def lifetimesFirst (args : List Tokens) : Tokens :=
  let isLast (i : Nat) := i + 1 == args.length
  let parts := (args.zipIdx.map fun (a, i) => (a, if isLast i then [] else [","])).filter
    fun (a, _) => !a.isEmpty
  let (lifetimes, others) := parts.partition fun (a, _) =>
    match a with
    | [t] => isLifetime t
    | _ => false
  let missing := !others.isEmpty && lifetimes.getLast?.any fun (_, comma) => comma.isEmpty
  let flat (ps : List (Tokens × Tokens)) := ps.flatMap fun (a, comma) => a ++ comma
  flat lifetimes ++ (if missing then [","] else []) ++ flat others

/-- The tokens up to the angle bracket that closes, and those behind it. -/
def angleEnd? : (groups angles : Nat) → Tokens → Option (Tokens × Tokens)
  | _, _, [] => none
  | groups, angles, t :: ts =>
    if groups = 0 ∧ angles = 0 ∧ t = ">" then some ([], ts)
    else if groups = 0 ∧ closes t then none
    else
      let angles :=
        if groups ≠ 0 then angles
        else if t = "<" then angles + 1
        else if t = ">" then angles - 1
        else angles
      let groups := if opens t then groups + 1 else if closes t then groups - 1 else groups
      (angleEnd? groups angles ts).map fun (inside, behind) => (t :: inside, behind)

/-- The tokens with the lifetimes first in every list of arguments. -/
def ordered : Nat → Tokens → Tokens
  | 0, ts => ts
  | _ + 1, [] => []
  | fuel + 1, t :: ts =>
    match if t = "<" then angleEnd? 0 0 ts else none with
    | some (inside, behind) =>
      "<" :: lifetimesFirst ((pieces "," inside).map (ordered fuel)) ++ ">" :: ordered fuel behind
    | none => t :: ordered fuel ts

/-- Tokens as text without blanks between them. -/
def text (ts : Tokens) : String :=
  String.join (ordered ts.length ts)

/-! ## Grammar -/

/-- The tokens behind the bracket that closes. -/
def groupEnd? : (depth : Nat) → Tokens → Option Tokens
  | _, [] => none
  | depth, t :: ts =>
    if opens t then groupEnd? (depth + 1) ts
    else if closes t then
      match depth with
      | 0 => some ts
      | depth + 1 => groupEnd? depth ts
    else groupEnd? depth ts

/-- The tokens behind a constant, if there is one: a literal or a block. -/
def afterConstant? : Tokens → Option Tokens
  | "\x7b" :: ts => groupEnd? 0 ts
  | "-" :: t :: ts => if isNumber t then some ts else none
  | t :: ts => if isLiteral t then some ts else none
  | [] => none

/-- The tokens behind the lifetimes that `for` binds. -/
def afterBinder? (ts : Tokens) : Option Tokens :=
  (angleEnd? 0 0 ts).map (·.2)

/-- The name of a parameter is left out. -/
def withoutLabel : Tokens → Tokens
  | t :: ":" :: ts => if isWord t then ts else t :: ":" :: ts
  | ts => ts

def withoutLifetime : Tokens → Tokens
  | t :: ts => if isLifetime t then ts else t :: ts
  | [] => []

def without (t : Token) : Tokens → Tokens
  | u :: ts => if u = t then ts else u :: ts
  | [] => []

/-- Whether the tokens that were read are one name, with or without arguments. -/
def isOneSegment (read : Tokens) : Bool :=
  match read with
  | [t] => isWord t
  | t :: "<" :: _ => isWord t && ["::", "+", "->", "!"].all (isWhole · read)
  | _ => false

def beginsBound (t : Token) : Bool :=
  isWord t || isLifetime t || ["::", "?", "(", "~"].contains t

mutual

/-- The tokens behind a type; `sums` says whether bounds may be added to it. -/
def afterType? : Nat → (sums : Bool) → Tokens → Option Tokens
  | 0, _, _ => none
  | fuel + 1, sums, ts =>
    match ts with
    | [] => none
    | "(" :: ts => do afterSum? fuel sums (← afterTypes? fuel ")" false ts)
    | "[" :: ts => do
      match ← afterType? fuel true ts with
      | "]" :: ts => some ts
      | ";" :: t :: ts => if t = "]" then none else groupEnd? 0 (t :: ts)
      | _ => none
    | "*" :: "const" :: ts => afterType? fuel false ts
    | "*" :: "mut" :: ts => afterType? fuel false ts
    | "&" :: ts => afterType? fuel false (without "mut" (withoutLifetime ts))
    | "!" :: ts => some ts
    | "_" :: ts => some ts
    | "impl" :: ts => afterBounds? fuel sums ts
    | "dyn" :: ts => afterBounds? fuel sums ts
    | "for" :: "<" :: ts => do afterType? fuel sums (← afterBinder? ts)
    | "unsafe" :: ts => afterType? fuel sums ts
    | "extern" :: t :: ts => afterType? fuel sums (if isLiteral t then ts else t :: ts)
    | "fn" :: "(" :: ts => do afterResult? fuel (← afterTypes? fuel ")" true ts)
    | "<" :: ts => do
      match ← afterType? fuel true ts with
      | ">" :: "::" :: ts => afterSegments? fuel ts
      | "as" :: ts =>
        match ← afterSegments? fuel (without "::" ts) with
        | ">" :: "::" :: ts => afterSegments? fuel ts
        | _ => none
      | _ => none
    | t :: _ =>
      if isLifetime t then afterBounds? fuel sums ts
      else do
        match ← afterCall? fuel (← afterSegments? fuel (without "::" ts)) with
        | "!" :: t :: ts => if opens t then groupEnd? 0 ts else none
        | ts => afterSum? fuel sums ts

/-- The tokens behind types with commas between them, and behind `close`. -/
def afterTypes? : Nat → (close : Token) → (labelled : Bool) → Tokens → Option Tokens
  | 0, _, _, _ => none
  | fuel + 1, close, labelled, ts =>
    if ts.head? = some close then some ts.tail
    else do
      match ← afterType? fuel true (if labelled then withoutLabel ts else ts) with
      | "," :: ts => afterTypes? fuel close labelled ts
      | t :: ts => if t = close then some ts else none
      | [] => none

/-- The tokens behind the type of a result, if one is given. -/
def afterResult? : Nat → Tokens → Option Tokens
  | 0, _ => none
  | fuel + 1, ts =>
    match ts with
    | "->" :: ts => afterType? fuel false ts
    | ts => some ts

/-- The tokens behind parameters in parentheses, if a name has them in place of arguments. -/
def afterCall? : Nat → Tokens → Option Tokens
  | 0, _ => none
  | fuel + 1, ts =>
    match ts with
    | "(" :: ts => do afterResult? fuel (← afterTypes? fuel ")" false ts)
    | "::" :: "(" :: ts => do afterResult? fuel (← afterTypes? fuel ")" false ts)
    | ts => some ts

/-- The tokens behind the bounds that are added to a type. -/
def afterSum? : Nat → (sums : Bool) → Tokens → Option Tokens
  | 0, _, _ => none
  | fuel + 1, sums, ts =>
    match ts with
    | "+" :: rest =>
      if !sums then some ts
      else if rest.head?.any beginsBound then afterBounds? fuel true rest
      else some rest
    | ts => some ts

/-- The tokens behind one or more bounds. -/
def afterBounds? : Nat → (sums : Bool) → Tokens → Option Tokens
  | 0, _, _ => none
  | fuel + 1, sums, ts =>
    match ts with
    | [] => none
    | "(" :: ts => do
      match ← afterBounds? fuel false ts with
      | ")" :: ts => afterSum? fuel sums ts
      | _ => none
    | "?" :: ts => afterBounds? fuel sums ts
    | "~" :: "const" :: ts => afterBounds? fuel sums ts
    | "for" :: "<" :: ts => do afterBounds? fuel sums (← afterBinder? ts)
    | t :: rest =>
      if isLifetime t then afterSum? fuel sums rest
      else do afterSum? fuel sums (← afterCall? fuel (← afterSegments? fuel (without "::" ts)))

/-- The tokens behind the names of a path, each with its arguments. -/
def afterSegments? : Nat → Tokens → Option Tokens
  | 0, _ => none
  | _ + 1, [] => none
  | fuel + 1, t :: ts => do
    let behind ←
      if ["crate", "self", "super", "try"].contains t then some ts
      else if isName t || t == "Self" then
        match ts with
        | "<" :: ts => afterArguments? fuel ts
        | "::" :: "<" :: ts => afterArguments? fuel ts
        | ts => some ts
      else none
    match behind with
    | "::" :: "(" :: _ => some behind
    | "::" :: ts => afterSegments? fuel ts
    | _ => some behind

/-- The tokens behind arguments and the angle bracket that closes. -/
def afterArguments? : Nat → Tokens → Option Tokens
  | 0, _ => none
  | fuel + 1, ts =>
    match ts with
    | ">" :: ts => some ts
    | ts => do
      match ← afterArgument? fuel ts with
      | "," :: ts => afterArguments? fuel ts
      | ">" :: ts => some ts
      | _ => none

def afterArgument? : Nat → Tokens → Option Tokens
  | 0, _ => none
  | _ + 1, [] => none
  | fuel + 1, t :: ts =>
    if isLifetime t && ts.head? != some "+" then some ts
    else if isLiteral t || t == "-" || t == "\x7b" then afterConstant? (t :: ts)
    else do
      let behind ← afterType? fuel true (t :: ts)
      if !isOneSegment ((t :: ts).take (ts.length + 1 - behind.length)) then some behind
      else
        match behind with
        | "=" :: ts => (afterConstant? ts).or (afterType? fuel true ts)
        | ":" :: ts => afterBounds? fuel true ts
        | _ => some behind

end

/-- The path that a text spells. -/
def path? (s : String) : Option Tokens := do
  let ts ← read? s
  match ← afterSegments? (4 * ts.length + 4) (without "::" ts) with
  | [] => some ts
  | _ => none

end Tokens

end Orm.Derive
