import ModulePack.Toml.Basic

/-!
# Tables under construction

A TOML document names its tables in headers and in dotted keys, and each table only once. `Item`
remembers how a table came about, which decides what may still be added to it.
-/

namespace ModulePack.Toml

/-- What stands under a key while a document is read. -/
inductive Item where
  /-- A value; nothing can be added to it. -/
  | value (v : Value)
  /-- A table. It is implicit until a header names it, and dotted if a dotted key made it. -/
  | table (implicit dotted : Bool) (entries : List (Text × Item))
  /-- The tables of an array, each named by a header of its own. -/
  | tables (each : List Item)

namespace Item

def named : Item := .table false false []

mutual

def toValue : Item → Value
  | .value v => v
  | .table _ _ entries => .table (entryValues entries)
  | .tables each => .array (itemValues each)

def itemValues : List Item → List Value
  | [] => []
  | item :: rest => toValue item :: itemValues rest

def entryValues : List (Text × Item) → List (Text × Value)
  | [] => []
  | (key, item) :: rest => (key, toValue item) :: entryValues rest

end

/-- The last table of an array changed. -/
def changeLast? (f : Item → Option Item) : List Item → Option (List Item)
  | [] => none
  | [item] => (f item).map ([·])
  | item :: rest => (changeLast? f rest).map (item :: ·)

/-- The table at the end of a path changed, with missing tables made on the way. A dotted key may
not pass through a table that a header has named. -/
def change? (dotted : Bool) (f : Item → Option Item) : (path : List Text) → Item → Option Item
  | [], item => f item
  | key :: path, .table implicit isDotted entries => do
    let next ←
      match get? key entries with
      | none => change? dotted f path (.table true dotted [])
      | some (.value _) => none
      | some (.tables each) => (changeLast? (change? dotted f path) each).map .tables
      | some (.table implicit isDotted below) =>
        if dotted ∧ ¬implicit then none
        else change? dotted f path (.table implicit isDotted below)
    return .table implicit isDotted (put key next entries)
  | _ :: _, _ => none

/-- A table named by a header, where it has not been named and no dotted key has made it. Its place
among its neighbours is that of the header. -/
def name? (key : Text) : Item → Option Item
  | .table implicit dotted entries =>
    match get? key entries with
    | none => some (.table implicit dotted (put key named entries))
    | some (.table true false below) =>
      let others := entries.filter fun entry => entry.1 != key
      some (.table implicit dotted (others ++ [(key, .table false false below)]))
    | some _ => none
  | _ => none

/-- One more table in the array under a key. -/
def nameNext? (key : Text) : Item → Option Item
  | .table implicit dotted entries =>
    match get? key entries with
    | none => some (.table implicit dotted (put key (.tables [named]) entries))
    | some (.tables each) =>
      some (.table implicit dotted (put key (.tables (each ++ [named])) entries))
    | some _ => none
  | _ => none

/-- A value under a new key; `plain` if the key has a single part. Only a dotted key may add to a
table that dotted keys have made, and only to such a one. -/
def assign? (plain : Bool) (key : Text) (v : Value) : Item → Option Item
  | .table implicit dotted entries =>
    if dotted = plain ∨ (get? key entries).isSome then none
    else some (.table implicit dotted (put key (.value v) entries))
  | _ => none

/-- A value under a key with one or more parts. -/
def assignAt? (path : List Text) (v : Value) (item : Item) : Option Item :=
  match path.reverse with
  | [] => none
  | key :: above => change? true (assign? above.isEmpty key v) above.reverse item

/-- A change made to the parent of the table that a header names. -/
def header? (f : Text → Item → Option Item) (path : List Text) (item : Item) : Option Item :=
  match path.reverse with
  | [] => none
  | key :: above => change? false (f key) above.reverse item

end Item

end ModulePack.Toml
