import ModulePack.Json.Basic
import ModulePack.Number.Decimal

/-!
# JSON text

A value is written on one line without spaces, or one item a line with two spaces of indentation for
each container around it. Quote, backslash and the controls below U+0020 are escaped, nothing else.
-/

namespace ModulePack.Json

/-- The escape of one character inside a string. -/
def escapeChar (c : Char) : Text :=
  match c with
  | '"' => ['\\', '"']
  | '\\' => ['\\', '\\']
  | '\x08' => ['\\', 'b']
  | '\x0c' => ['\\', 'f']
  | '\n' => ['\\', 'n']
  | '\r' => ['\\', 'r']
  | '\t' => ['\\', 't']
  | _ =>
    if c.toNat < 0x20 then
      ['\\', 'u', '0', '0', Nat.digitChar (c.toNat / 16), Nat.digitChar (c.toNat % 16)]
    else [c]

def stringText (s : Text) : Text := '"' :: s.flatMap escapeChar ++ ['"']

/-- Which scientific exponents are written without one. -/
def positionalMin : Int := -5
def positionalMax : Int := 15

/-- A positive decimal number: with a point where its exponent allows, and then with at least one
digit on either side; otherwise one digit before the point and a signed exponent. -/
def decimalText (x : Binary64.Decimal) : Text :=
  let digits := Text.ofNat x.digits
  let trimmed := (digits.reverse.dropWhile (· == '0')).reverse
  let exponent : Int := x.exponent + digits.length - 1
  if positionalMin ≤ exponent ∧ exponent ≤ positionalMax then
    if exponent < 0 then
      "0.".toList ++ List.replicate ((-exponent).toNat - 1) '0' ++ trimmed
    else
      let count := exponent.toNat + 1
      let whole := trimmed.take count ++ List.replicate (count - trimmed.length) '0'
      let part := trimmed.drop count
      whole ++ '.' :: (if part = [] then ['0'] else part)
  else
    let sign := if exponent < 0 then '-' else '+'
    let point := if trimmed.length ≤ 1 then [] else '.' :: trimmed.drop 1
    trimmed.take 1 ++ point ++ 'e' :: sign :: Text.ofNat exponent.natAbs

def Number.text : Number → Text
  | .natural n => Text.ofNat n
  | .negative n => '-' :: Text.ofNat n
  | .real minus x =>
    (if minus then ['-'] else []) ++
      (if x.significand = 0 then "0.0".toList else decimalText x.shortest)

/-- How the parts of a container are set apart. -/
inductive Layout where
  | compact
  | pretty
  deriving DecidableEq

namespace Layout

/-- What stands before an item inside `level` containers. -/
def line : Layout → (level : Nat) → Text
  | .compact, _ => []
  | .pretty, level => '\n' :: List.replicate (2 * level) ' '

/-- What stands between a key and its value. -/
def colon : Layout → Text
  | .compact => [':']
  | .pretty => [':', ' ']

end Layout

mutual

/-- The text of a value inside `level` containers. -/
def write (layout : Layout) (level : Nat) : Json → Text
  | .null => "null".toList
  | .bool true => "true".toList
  | .bool false => "false".toList
  | .number n => n.text
  | .string s => stringText s
  | .array [] => ['[', ']']
  | .array (v :: items) =>
    '[' :: layout.line (level + 1) ++ write layout (level + 1) v ++ writeItems layout level items
  | .object [] => ['\x7b', '\x7d']
  | .object ((key, v) :: fields) =>
    '\x7b' :: layout.line (level + 1) ++ stringText key ++ layout.colon
      ++ write layout (level + 1) v ++ writeFields layout level fields

/-- The items of an array after the first, with its end. -/
def writeItems (layout : Layout) (level : Nat) : List Json → Text
  | [] => layout.line level ++ [']']
  | v :: items =>
    ',' :: layout.line (level + 1) ++ write layout (level + 1) v ++ writeItems layout level items

/-- The fields of an object after the first, with its end. -/
def writeFields (layout : Layout) (level : Nat) : Fields → Text
  | [] => layout.line level ++ ['\x7d']
  | (key, v) :: fields =>
    ',' :: layout.line (level + 1) ++ stringText key ++ layout.colon
      ++ write layout (level + 1) v ++ writeFields layout level fields

end

/-- The text on one line. -/
def compact (v : Json) : Text := write .compact 0 v

/-- The text with an item a line. -/
def pretty (v : Json) : Text := write .pretty 0 v

end ModulePack.Json
