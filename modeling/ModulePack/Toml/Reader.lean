import ModulePack.Toml.Scalar
import ModulePack.Toml.Table

/-!
# Reading TOML

`parse?` accepts the documents of TOML 1.0 and answers with their root table. A byte order mark may
stand in front. Containers on one line nest less than `maxNesting` deep, and a dotted key has fewer
parts than that.
-/

namespace ModulePack.Toml

def maxNesting : Nat := 80

/-- The text behind a comment, if one stands in front. A comment holds no control but tabs. -/
def skipComment? : Text → Option Text
  | '#' :: s =>
    let rest := s.dropWhile isPlain
    if rest = [] ∨ (newline? rest).isSome then some rest else none
  | s => some s

/-- What follows the end of a line, with white space and a comment before it. -/
def lineEnd? (s : Text) : Option Text := do
  match ← skipComment? (skipBlank s) with
  | [] => some []
  | rest => newline? rest

/-- What follows white space, line ends and comments. `fuel` bounds how many. -/
def skipFiller? : (fuel : Nat) → Text → Option Text
  | 0, _ => none
  | fuel + 1, s =>
    match skipBlank s with
    | '#' :: rest => do skipFiller? fuel (← newline? (← skipComment? ('#' :: rest)))
    | rest =>
      match newline? rest with
      | some rest => skipFiller? fuel rest
      | none => some rest

/-! ### Keys -/

def isKeyChar (c : Char) : Bool := c.isAlphanum || c == '_' || c == '-'

/-- One part of a key: a bare word, or a string on one line. -/
def keyPart? : Text → Option (Text × Text)
  | '"' :: s => lineBody? '"' true (s.length + 1) s
  | '\'' :: s => lineBody? '\'' false (s.length + 1) s
  | s =>
    let word := s.takeWhile isKeyChar
    if word = [] then none else some (word, s.dropWhile isKeyChar)

/-- The parts of a key between dots, with white space around them. -/
def keyParts? : (fuel : Nat) → Text → Option (List Text × Text)
  | 0, _ => none
  | fuel + 1, s => do
    let (part, s) ← keyPart? (skipBlank s)
    match skipBlank s with
    | '.' :: s => do
      let (parts, rest) ← keyParts? fuel s
      return (part :: parts, rest)
    | rest => some ([part], rest)

def key? (s : Text) : Option (List Text × Text) := do
  let (parts, rest) ← keyParts? (s.length + 1) s
  if parts.length < maxNesting then some (parts, rest) else none

/-! ### Values -/

/-- The items of an array, read from behind its bracket or behind a comma. -/
def items? (item? : Text → Option (Value × Text)) :
    (fuel : Nat) → Text → Option (List Value × Text)
  | 0, _ => none
  | fuel + 1, s => do
    match ← skipFiller? (s.length + 1) s with
    | ']' :: rest => some ([], rest)
    | s =>
      let (v, s) ← item? s
      match ← skipFiller? (s.length + 1) s with
      | ']' :: rest => some ([v], rest)
      | ',' :: s => do
        let (vs, rest) ← items? item? fuel s
        return (v :: vs, rest)
      | _ => none

/-- The pairs of a table on one line, the first of them in front, each added to the table. -/
def pairs? (item? : Text → Option (Value × Text)) :
    (fuel : Nat) → Item → Text → Option (Item × Text)
  | 0, _, _ => none
  | fuel + 1, table, s => do
    let (path, s) ← key? s
    match s with
    | '=' :: s => do
      let (v, s) ← item? (skipBlank s)
      let table ← table.assignAt? path v
      match skipBlank s with
      | '\x7d' :: rest => some (table, rest)
      | ',' :: s => pairs? item? fuel table s
      | _ => none
    | _ => none

/-- The value in front; `nesting` bounds the containers in it. -/
def value? : (nesting : Nat) → Text → Option (Value × Text)
  | 0, '[' :: _ | 0, '\x7b' :: _ => none
  | nesting + 1, '[' :: s => do
    let (items, rest) ← items? (value? nesting) (s.length + 1) s
    return (.array items, rest)
  | nesting + 1, '\x7b' :: s =>
    match skipBlank s with
    | '\x7d' :: rest => some (.table [], rest)
    | _ => do
      let (table, rest) ← pairs? (value? nesting) (s.length + 1) .named s
      return (table.toValue, rest)
  | _, s =>
    if s.head? = some '"' ∨ s.head? = some '\'' then
      (string? s).map fun (text, rest) => (.string text, rest)
    else scalar? s

/-! ### Documents -/

/-- The path in a header, between its brackets, and what follows the line. -/
def header? (closing : Text) (s : Text) : Option (List Text × Text) := do
  let (path, s) ← key? s
  let rest ← lineEnd? (← Text.after? closing s)
  return (path, rest)

/-- The rest of a document read into the root table, where `current` is the table named last. -/
def lines? : (fuel : Nat) → (current : List Text) → Item → Text → Option Item
  | 0, _, _, _ => none
  | fuel + 1, current, root, s =>
    match skipBlank s with
    | [] => some root
    | '#' :: s => do lines? fuel current root (← lineEnd? ('#' :: s))
    | '[' :: '[' :: s => do
      let (path, rest) ← header? "]]".toList s
      lines? fuel path (← root.header? Item.nameNext? path) rest
    | '[' :: s => do
      let (path, rest) ← header? "]".toList s
      lines? fuel path (← root.header? Item.name? path) rest
    | s =>
      match newline? s with
      | some s => lines? fuel current root s
      | none => do
        let (path, s) ← key? s
        match s with
        | '=' :: s => do
          let (v, s) ← value? (maxNesting - 1) (skipBlank s)
          let root ← root.change? false (·.assignAt? path v) current
          lines? fuel current root (← lineEnd? s)
        | _ => none

def parse? (s : Text) : Option (List (Text × Value)) := do
  let s := match s with
    | '\ufeff' :: s => s
    | s => s
  match (← lines? (s.length + 1) [] .named s).toValue with
  | .table fields => some fields
  | _ => none

end ModulePack.Toml
