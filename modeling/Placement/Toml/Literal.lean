/-
  Placement/Toml/Literal.lean
  ===========================
  **The literals of TOML: strings, numbers, dates.**

  Each reader takes its literal from the front of the text and returns the rest, or has
  no result.  A reader takes as much as belongs to the literal, and what follows is for
  others to judge.
-/
import Placement.Toml.Node

namespace Placement

namespace Toml

/-- A reader of something at the front of a text. -/
abbrev Reader (β : Type) := List Char → Option (β × List Char)

/-! ### Blanks and comments -/

def isBlank (c : Char) : Bool := c = ' ' || c = '\t'

/-- Characters of a comment, and of a string where no other rule is about them: no
    control character but the tab. -/
def isPlain (c : Char) : Bool :=
  c = '\t' || (decide (' '.toNat ≤ c.toNat) && decide (c.toNat ≠ 0x7F))

def skipBlanks (cs : List Char) : List Char := cs.dropWhile isBlank

/-- Skip a comment, if there is one, up to the end of its line. -/
def skipComment : List Char → List Char
  | '#' :: cs => cs.dropWhile isPlain
  | cs => cs

def newline? : List Char → Option (List Char)
  | '\n' :: cs => some cs
  | '\r' :: '\n' :: cs => some cs
  | _ => none

/-- Take blanks and a comment up to the end of the line or of the text. -/
def restOfLine? (cs : List Char) : Option (List Char) :=
  match skipComment (skipBlanks cs) with
  | [] => some []
  | cs => newline? cs

/-- Skip blanks, comments and ends of lines, for at most `fuel` lines. -/
def skipLines : (fuel : Nat) → List Char → List Char
  | 0, cs => cs
  | fuel + 1, cs =>
    let cs := skipBlanks cs
    match newline? (skipComment cs) with
    | some cs => skipLines fuel cs
    | none => cs

def skipFiller (cs : List Char) : List Char := skipLines (cs.length + 1) cs

/-! ### Strings -/

def hexDigit? (c : Char) : Option Nat :=
  if c.isDigit then some (c.toNat - '0'.toNat)
  else if 'a' ≤ c ∧ c ≤ 'f' then some (c.toNat - 'a'.toNat + 10)
  else if 'A' ≤ c ∧ c ≤ 'F' then some (c.toNat - 'A'.toNat + 10)
  else none

/-- The character with the code point that some hexadecimal digits spell. -/
def charOfHex? (digits : List Char) : Option Char := do
  let values ← digits.mapM hexDigit?
  let n := values.foldl (fun n d => 16 * n + d) 0
  if n.isValidChar then some (Char.ofNat n) else none

def escaped? : Char → Option Char
  | 'b' => some '\x08'
  | 't' => some '\t'
  | 'n' => some '\n'
  | 'f' => some '\x0c'
  | 'r' => some '\r'
  | '"' => some '"'
  | '\\' => some '\\'
  | _ => none

def prepend (c : Char) (r : Option (List Char × List Char)) : Option (List Char × List Char) :=
  r.map fun (taken, rest) => (c :: taken, rest)

def basicString : Reader (List Char)
  | [] => none
  | '"' :: cs => some ([], cs)
  | '\\' :: 'u' :: a :: b :: c :: d :: cs => do
    prepend (← charOfHex? [a, b, c, d]) (basicString cs)
  | '\\' :: 'U' :: a :: b :: c :: d :: e :: f :: g :: h :: cs => do
    prepend (← charOfHex? [a, b, c, d, e, f, g, h]) (basicString cs)
  | '\\' :: c :: cs => do prepend (← escaped? c) (basicString cs)
  | c :: cs => if isPlain c then prepend c (basicString cs) else none

def literalString : Reader (List Char)
  | [] => none
  | '\'' :: cs => some ([], cs)
  | c :: cs => if isPlain c then prepend c (literalString cs) else none

/-- The end of a string over several lines: three quotes, or up to five, of which all but
    three belong to the string. -/
def closing? (quote : Char) (cs : List Char) : Option (List Char × List Char) :=
  let quotes := min 5 (cs.takeWhile (· = quote)).length
  if 3 ≤ quotes then some (List.replicate (quotes - 3) quote, cs.drop quotes) else none

def skipBlankLines : List Char → List Char
  | [] => []
  | '\r' :: '\n' :: cs => skipBlankLines cs
  | c :: cs => if isBlank c || c = '\n' then skipBlankLines cs else c :: cs

/-- What follows a backslash that ends a line: blank lines and blanks are skipped, so that
    the string goes on with the next character.  None if the line does not end there. -/
def lineSplice? (cs : List Char) : Option (List Char) := (newline? (skipBlanks cs)).map skipBlankLines

/-- The rest of a string in double quotes over several lines, for at most `fuel` steps. -/
def multilineBasic : (fuel : Nat) → Reader (List Char)
  | 0, _ => none
  | fuel + 1, cs =>
    match closing? '"' cs with
    | some done => some done
    | none =>
      match cs with
      | [] => none
      | '\r' :: '\n' :: cs => prepend '\n' (multilineBasic fuel cs)
      | '\n' :: cs => prepend '\n' (multilineBasic fuel cs)
      | '\\' :: 'u' :: a :: b :: c :: d :: cs => do
        prepend (← charOfHex? [a, b, c, d]) (multilineBasic fuel cs)
      | '\\' :: 'U' :: a :: b :: c :: d :: e :: f :: g :: h :: cs => do
        prepend (← charOfHex? [a, b, c, d, e, f, g, h]) (multilineBasic fuel cs)
      | '\\' :: c :: cs =>
        match escaped? c with
        | some c => prepend c (multilineBasic fuel cs)
        | none => do
          let rest ← lineSplice? (c :: cs)
          multilineBasic fuel rest
      | c :: cs => if isPlain c then prepend c (multilineBasic fuel cs) else none

/-- The rest of a string in single quotes over several lines, for at most `fuel` steps. -/
def multilineLiteral : (fuel : Nat) → Reader (List Char)
  | 0, _ => none
  | fuel + 1, cs =>
    match closing? '\'' cs with
    | some done => some done
    | none =>
      match cs with
      | [] => none
      | '\r' :: '\n' :: cs => prepend '\n' (multilineLiteral fuel cs)
      | '\n' :: cs => prepend '\n' (multilineLiteral fuel cs)
      | c :: cs => if isPlain c then prepend c (multilineLiteral fuel cs) else none

/-- Skip the end of a line right behind opening quotes. -/
def skipFirstNewline (cs : List Char) : List Char := (newline? cs).getD cs

def string : Reader (List Char)
  | '"' :: '"' :: '"' :: cs => multilineBasic (cs.length + 1) (skipFirstNewline cs)
  | '"' :: cs => basicString cs
  | '\'' :: '\'' :: '\'' :: cs => multilineLiteral (cs.length + 1) (skipFirstNewline cs)
  | '\'' :: cs => literalString cs
  | _ => none

/-! ### Numbers -/

/-- Digits with single underscores between them; the digits without the underscores. -/
def digits (isDigit : Char → Bool) : Reader (List Char)
  | [] => none
  | c :: cs => if isDigit c then some (more [c] cs) else none
where
  /-- The digits after those in `taken`, which stand in reverse. -/
  more (taken : List Char) : List Char → List Char × List Char
    | '_' :: c :: cs => if isDigit c then more (c :: taken) cs else (taken.reverse, '_' :: c :: cs)
    | c :: cs => if isDigit c then more (c :: taken) cs else (taken.reverse, c :: cs)
    | [] => (taken.reverse, [])

/-- The digits of a whole number: a zero on its own, or digits that start with another. -/
def wholeDigits : Reader (List Char)
  | '0' :: cs => some (['0'], cs)
  | cs => digits Char.isDigit cs

def power : Reader Int
  | [] => none
  | c :: cs =>
    if c = 'e' || c = 'E' then do
      let (negative, cs) := Decimal.splitSign cs
      let (ds, cs) ← digits Char.isDigit cs
      let n : Int := Decimal.natOfDigits ds
      return (if negative then -n else n, cs)
    else none

/-- What follows the whole digits of a floating number: its digits after the point and
    its power of ten, at least one of which must be written. -/
def fractionAndPower : Reader (List Char × Int)
  | '.' :: cs => do
    let (fraction, cs) ← digits Char.isDigit cs
    match power cs with
    | some (exponent, cs) => return ((fraction, exponent), cs)
    | none => return ((fraction, 0), cs)
  | cs => (power cs).map fun (exponent, cs) => (([], exponent), cs)

/-- A numeral with a point, a power of ten or both.  One that is too large to be finite
    as a 64-bit number is refused, unless it is negative. -/
def decimal : Reader Number := fun cs => do
  let (negative, cs) := Decimal.splitSign cs
  let (whole, cs) ← wholeDigits cs
  let ((fraction, exponent), cs) ← fractionAndPower cs
  let numeral := Decimal.ofParts negative whole fraction exponent
  if ¬negative ∧ numeral.nearest .double = Format.double.infinity then none
  else some (.finite numeral, cs)

/-- One of the words for infinity and for what is no number. -/
def specialNumber : Reader Number := fun cs =>
  let (negative, cs) := Decimal.splitSign cs
  match cs with
  | 'i' :: 'n' :: 'f' :: cs => some (.infinite negative, cs)
  | 'n' :: 'a' :: 'n' :: cs => some (.nan negative, cs)
  | _ => none

/-- The value of digits in a base that is a power of two. -/
def inBase (base : Nat) : Reader Int := fun cs => do
  let isDigit (c : Char) : Bool := (hexDigit? c).any fun d => decide (d < base)
  let (ds, cs) ← digits isDigit cs
  let values ← ds.mapM hexDigit?
  return (((values.foldl (fun n d => base * n + d) 0 : Nat) : Int), cs)

/-- A whole number in decimal digits, with a sign or without. -/
def signedWhole : Reader Int := fun cs => do
  let (negative, cs) := Decimal.splitSign cs
  let (ds, cs) ← wholeDigits cs
  let n : Int := Decimal.natOfDigits ds
  return (if negative then -n else n, cs)

/-- A whole number of any size.  One in another base has no sign. -/
def anyInteger : Reader Int
  | '0' :: 'x' :: cs => inBase 16 cs
  | '0' :: 'o' :: cs => inBase 8 cs
  | '0' :: 'b' :: cs => inBase 2 cs
  | cs => signedWhole cs

/-- A whole number, which must fit a signed 64-bit word. -/
def integer : Reader Int := fun cs =>
  (anyInteger cs).filter fun (n, _) => decide (Int64.minValue.toInt ≤ n) && decide (n ≤ Int64.maxValue.toInt)

/-! ### Dates and times -/

/-- A number of exactly `count` digits between two bounds. -/
def field (count low high : Nat) : Reader Nat := fun cs =>
  let ds := cs.take count
  let n := Decimal.natOfDigits ds
  if ds.length = count ∧ ds.all Char.isDigit ∧ low ≤ n ∧ n ≤ high then some (n, cs.drop count)
  else none

def mark? (c : Char) : List Char → Option (List Char)
  | d :: cs => if d = c then some cs else none
  | [] => none

def lastDay (year month : Nat) : Nat :=
  if month = 2 then
    if year % 4 = 0 ∧ (year % 100 ≠ 0 ∨ year % 400 = 0) then 29 else 28
  else if month = 4 ∨ month = 6 ∨ month = 9 ∨ month = 11 then 30
  else 31

def date? (cs : List Char) : Option (List Char) := do
  let (year, cs) ← field 4 0 9999 cs
  let cs ← mark? '-' cs
  let (month, cs) ← field 2 1 12 cs
  let cs ← mark? '-' cs
  let (_, cs) ← field 2 1 (lastDay year month) cs
  return cs

/-- A time of day, to the second or a fraction of it. -/
def time? (cs : List Char) : Option (List Char) := do
  let (_, cs) ← field 2 0 23 cs
  let cs ← mark? ':' cs
  let (_, cs) ← field 2 0 59 cs
  let cs ← mark? ':' cs
  let (_, cs) ← field 2 0 60 cs
  match cs with
  | '.' :: c :: rest => if c.isDigit then return rest.dropWhile Char.isDigit else none
  | '.' :: [] => none
  | cs => return cs

def offset? : List Char → Option (List Char)
  | [] => some []
  | c :: cs =>
    if c = 'Z' || c = 'z' then some cs
    else if c = '+' || c = '-' then do
      let (_, cs) ← field 2 0 23 cs
      let cs ← mark? ':' cs
      let (_, cs) ← field 2 0 59 cs
      return cs
    else some (c :: cs)

/-- A date, a time, or both; a blank may stand between them, but a blank alone ends
    the date. -/
def dateTime? (cs : List Char) : Option (List Char) :=
  match date? cs with
  | none => time? cs
  | some cs =>
    match cs with
    | c :: rest =>
      if c = 'T' || c = 't' || c = ' ' then
        match time? rest with
        | some rest => offset? rest
        | none => some cs
      else some cs
    | [] => some []

/-! ### All of them -/

/-- A value that contains no others. -/
def scalar (cs : List Char) : Option (Node × List Char) :=
  match cs with
  | 't' :: 'r' :: 'u' :: 'e' :: cs => some (.boolean true, cs)
  | 'f' :: 'a' :: 'l' :: 's' :: 'e' :: cs => some (.boolean false, cs)
  | c :: _ =>
    if c = '"' ∨ c = '\'' then (string cs).map fun (s, cs) => (.text (String.ofList s), cs)
    else
      (dateTime? cs).map (fun cs => (Node.dateTime, cs))
        <|> (specialNumber cs).map (fun (x, cs) => (Node.float x, cs))
        <|> (decimal cs).map (fun (x, cs) => (Node.float x, cs))
        <|> (integer cs).map (fun (n, cs) => (Node.integer n, cs))
  | [] => none

end Toml

end Placement
