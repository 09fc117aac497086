import ModulePack.Number.Binary64
import ModulePack.Toml.Basic

/-!
# Scalars of TOML text

Strings in their four forms, numbers, truth values, dates and times, after TOML 1.0. Each reader
takes a text and answers with what it read from its front and the rest.
-/

namespace ModulePack.Toml

def isBlank (c : Char) : Bool := c == ' ' || c == '\t'

def skipBlank (s : Text) : Text := s.dropWhile isBlank

/-- What follows a line end in front: LF, or CR LF. -/
def newline? : Text → Option Text
  | '\n' :: s => some s
  | '\r' :: '\n' :: s => some s
  | _ => none

/-- A tab, or any character that is no control. -/
def isPlain (c : Char) : Bool := c == '\t' || (0x20 ≤ c.toNat && c.toNat != 0x7f)

def isHexDigit (c : Char) : Bool :=
  c.isDigit || ('a' ≤ c && c ≤ 'f') || ('A' ≤ c && c ≤ 'F')

def digitValue (c : Char) : Nat :=
  if c.isDigit then c.toNat - '0'.toNat else c.toLower.toNat - 'a'.toNat + 10

def ofDigits (base : Nat) (digits : Text) : Nat :=
  digits.foldl (fun n c => n * base + digitValue c) 0

/-! ### Strings -/

/-- The character with `count` hexadecimal digits in front as its code point. -/
def codePoint? (count : Nat) (s : Text) : Option (Char × Text) :=
  let digits := s.take count
  let n := ofDigits 16 digits
  if digits.length = count ∧ digits.all isHexDigit ∧ n.isValidChar then
    some (Char.ofNat n, s.drop count)
  else none

/-- The character of an escape, read from what follows its backslash. -/
def escape? : Text → Option (Char × Text)
  | 'b' :: s => some ('\x08', s)
  | 't' :: s => some ('\t', s)
  | 'n' :: s => some ('\n', s)
  | 'f' :: s => some ('\x0c', s)
  | 'r' :: s => some ('\r', s)
  | '"' :: s => some ('"', s)
  | '\\' :: s => some ('\\', s)
  | 'u' :: s => codePoint? 4 s
  | 'U' :: s => codePoint? 8 s
  | _ => none

/-- A character put in front of what a reader read. -/
def consRead (c : Char) : Option (Text × Text) → Option (Text × Text) :=
  Option.map fun (body, rest) => (c :: body, rest)

/-- The content of a string on one line up to its closing quote. `fuel` bounds its length. -/
def lineBody? (quote : Char) (escapes : Bool) : (fuel : Nat) → Text → Option (Text × Text)
  | 0, _ | _, [] => none
  | fuel + 1, c :: s =>
    if c = quote then some ([], s)
    else if escapes ∧ c = '\\' then do
      let (d, s) ← escape? s
      consRead d (lineBody? quote escapes fuel s)
    else if isPlain c then consRead c (lineBody? quote escapes fuel s)
    else none

/-- What follows white space and line ends, where a carriage return stands only before a line feed.
-/
def skipBreaks : Text → Text
  | '\r' :: '\n' :: s => skipBreaks s
  | c :: s => if isBlank c ∨ c = '\n' then skipBreaks s else c :: s
  | [] => []

/-- The content of a string over several lines. Up to two quotes may stand together inside, also in
front of the three that close it; a backslash at the end of a line joins the text after it. -/
def linesBody? (quote : Char) (escapes : Bool) : (fuel : Nat) → Text → Option (Text × Text)
  | 0, _ | _, [] => none
  | fuel + 1, c :: s =>
    if c = quote then
      let count := min 5 ((c :: s).takeWhile (· == quote)).length
      let rest := (c :: s).drop count
      if 3 ≤ count then some (List.replicate (count - 3) quote, rest)
      else
        (linesBody? quote escapes fuel rest).map fun (body, rest) =>
          (List.replicate count quote ++ body, rest)
    else if escapes ∧ c = '\\' then
      match newline? (skipBlank s) with
      | some s => linesBody? quote escapes fuel (skipBreaks s)
      | none => do
        let (d, s) ← escape? s
        consRead d (linesBody? quote escapes fuel s)
    else
      match newline? (c :: s) with
      | some s => consRead '\n' (linesBody? quote escapes fuel s)
      | none => if isPlain c then consRead c (linesBody? quote escapes fuel s) else none

/-- The string in front of a text that starts with a quote. -/
def string? : Text → Option (Text × Text)
  | '"' :: '"' :: '"' :: s => linesBody? '"' true (s.length + 1) ((newline? s).getD s)
  | '\'' :: '\'' :: '\'' :: s => linesBody? '\'' false (s.length + 1) ((newline? s).getD s)
  | '"' :: s => lineBody? '"' true (s.length + 1) s
  | '\'' :: s => lineBody? '\'' false (s.length + 1) s
  | _ => none

/-! ### Numbers -/

/-- The sign in front, if any: whether it is a minus, and what follows. -/
def splitSign : Text → Bool × Text
  | '-' :: s => (true, s)
  | '+' :: s => (false, s)
  | s => (false, s)

/-- The digits of a group in which single underscores may stand between two of them. -/
def grouped? (isDigit : Char → Bool) : Text → Option Text
  | [] => none
  | [c] => if isDigit c then some [c] else none
  | c :: '_' :: s => if isDigit c then (grouped? isDigit s).map (c :: ·) else none
  | c :: s => if isDigit c then (grouped? isDigit s).map (c :: ·) else none

/-- Decimal digits of which a zero in front stands alone. -/
def decimalDigits? (s : Text) : Option Text :=
  if s.head? = some '0' ∧ s ≠ ['0'] then none else grouped? Char.isDigit s

/-- The bounds of integers, which have 64 bits. -/
def maxInteger : Int := 0x7fffffffffffffff
def minInteger : Int := -0x8000000000000000

def inRange? (n : Int) : Option Int := if minInteger ≤ n ∧ n ≤ maxInteger then some n else none

def integer? : Text → Option Int
  | '0' :: 'x' :: s => do inRange? (ofDigits 16 (← grouped? isHexDigit s))
  | '0' :: 'o' :: s => do inRange? (ofDigits 8 (← grouped? (fun c => '0' ≤ c && c ≤ '7') s))
  | '0' :: 'b' :: s => do inRange? (ofDigits 2 (← grouped? (fun c => c == '0' || c == '1') s))
  | s => do
    let (minus, s) := splitSign s
    let n : Int := ofDigits 10 (← decimalDigits? s)
    inRange? (if minus then -n else n)

/-- The text before the first of the given characters, and the text after it if there is one. -/
def splitAtAny (marks : List Char) (s : Text) : Text × Option Text :=
  match s.dropWhile fun c => !marks.contains c with
  | [] => (s, none)
  | _ :: rest => (s.takeWhile fun c => !marks.contains c, some rest)

/-- Whether the number `digits · 10 ^ e` rounds to a finite one. -/
def isFinite (digits : Text) (e : Int) : Bool :=
  let n := ofDigits 10 digits
  let size : Int := digits.length + e
  if n = 0 ∨ size < 0 then true
  else if 1000 + digits.length < size then false
  else (Binary64.ofRatio? (n * Nat.pow 10 e.toNat) (Nat.pow 10 (-e).toNat)).isSome

/-- Whether a literal is a number with a point or an exponent. One too large is refused, unless it
is negative. -/
def isFloat (literal : Text) : Bool :=
  let (minus, s) := splitSign literal
  if s = "inf".toList ∨ s = "nan".toList then true
  else
    let (mantissa, power) := splitAtAny ['e', 'E'] s
    let (whole, part) := splitAtAny ['.'] mantissa
    let exponent := power.map splitSign
    let read := do
      let whole ← decimalDigits? whole
      let part ← match part with
        | some part => grouped? Char.isDigit part
        | none => some []
      let (down, digits) ← match exponent with
        | some (down, digits) => (grouped? Char.isDigit digits).map (down, ·)
        | none => some (false, [])
      let n : Int := ofDigits 10 digits
      return isFinite (whole ++ part) ((if down then -n else n) - part.length)
    (part.isSome || power.isSome) && read.elim false (minus || ·)

/-! ### Dates and times -/

/-- The number that exactly `count` digits give, if it lies between the bounds. -/
def digitsIn? (count low high : Nat) (s : Text) : Option Nat :=
  let n := ofDigits 10 s
  if s.length = count ∧ s.all Char.isDigit ∧ low ≤ n ∧ n ≤ high then some n else none

def isLeapYear (year : Nat) : Bool := year % 4 == 0 && (year % 100 != 0 || year % 400 == 0)

def daysIn (year month : Nat) : Nat :=
  if month = 2 then (if isLeapYear year then 29 else 28)
  else if [4, 6, 9, 11].contains month then 30
  else 31

/-- `YYYY-MM-DD` -/
def isDate (s : Text) : Bool :=
  (do
    let year ← digitsIn? 4 0 9999 (s.take 4)
    let month ← digitsIn? 2 1 12 ((s.drop 5).take 2)
    let _ ← digitsIn? 2 1 (daysIn year month) (s.drop 8)
    if s[4]? = some '-' ∧ s[7]? = some '-' then some () else none).isSome

/-- `HH:MM` -/
def isClock (s : Text) : Bool :=
  (do
    let _ ← digitsIn? 2 0 23 (s.take 2)
    let _ ← digitsIn? 2 0 59 (s.drop 3)
    if s[2]? = some ':' then some () else none).isSome

/-- `HH:MM:SS`, with any number of places behind the seconds; a leap second is the sixtieth. -/
def isTime (s : Text) : Bool :=
  isClock (s.take 5) && s[5]? == some ':' && (digitsIn? 2 0 60 ((s.drop 6).take 2)).isSome
    && match s.drop 8 with
      | [] => true
      | '.' :: places => !places.isEmpty && places.all Char.isDigit
      | _ => false

/-- A time with an offset to universal time behind it, if any. -/
def isOffsetTime (s : Text) : Bool :=
  match s.reverse with
  | [] => false
  | last :: before =>
    if last = 'Z' ∨ last = 'z' then isTime before.reverse
    else
      let cut := s.length - 6
      let sign := s[cut]?
      if 6 < s.length ∧ (sign = some '+' ∨ sign = some '-') then
        isTime (s.take cut) && isClock (s.drop (cut + 1))
      else isTime s

/-- A date, a time, or a date and a time with one mark between them. -/
def isDatetime (s : Text) : Bool :=
  isDate s || isTime s
    || (isDate (s.take 10) && (s[10]? == some 'T' || s[10]? == some 't' || s[10]? == some ' ')
      && isOffsetTime (s.drop 11))

/-! ### Literals -/

def isLiteralChar (c : Char) : Bool :=
  c.isAlphanum || c == '+' || c == '-' || c == '.' || c == ':' || c == '_'

def literal? (s : Text) : Option Value :=
  if s = "true".toList then some (.boolean true)
  else if s = "false".toList then some (.boolean false)
  else if isDatetime s then some (.datetime s)
  else
    match integer? s with
    | some n => some (.integer n)
    | none => if isFloat s then some (.float s) else none

/-- The value in front of a text that opens no string and no container. A date and a time may also
be set apart by a space. -/
def scalar? (s : Text) : Option (Value × Text) :=
  let literal := s.takeWhile isLiteralChar
  let rest := s.dropWhile isLiteralChar
  let time := (rest.drop 1).takeWhile isLiteralChar
  if isDate literal ∧ rest.head? = some ' ' ∧ isOffsetTime time then
    some (.datetime (literal ++ ' ' :: time), (rest.drop 1).dropWhile isLiteralChar)
  else (literal? literal).map (·, rest)

end ModulePack.Toml
