import ModulePack.Text.Basic

/-!
# TOML values
-/

namespace ModulePack.Toml

/-- The types of a value, as far as messages tell them apart. -/
inductive Kind where
  | string
  | integer
  | float
  | boolean
  | datetime
  | array
  | table
  deriving DecidableEq

def Kind.name : Kind → Text
  | .string => "string".toList
  | .integer => "integer".toList
  | .float => "float".toList
  | .boolean => "boolean".toList
  | .datetime => "datetime".toList
  | .array => "array".toList
  | .table => "table".toList

/-- A value. Numbers other than integers, and points in time, are kept as they are written. -/
inductive Value where
  | string (s : Text)
  | integer (n : Int)
  | float (literal : Text)
  | boolean (b : Bool)
  | datetime (literal : Text)
  | array (items : List Value)
  | table (fields : List (Text × Value))

def Value.kind : Value → Kind
  | .string _ => .string
  | .integer _ => .integer
  | .float _ => .float
  | .boolean _ => .boolean
  | .datetime _ => .datetime
  | .array _ => .array
  | .table _ => .table

def get? {α : Type} (key : Text) (fields : List (Text × α)) : Option α :=
  (fields.find? fun field => field.1 == key).map Prod.snd

/-- The value under a key set, in its old place or at the end. -/
def put {α : Type} (key : Text) (value : α) : List (Text × α) → List (Text × α)
  | [] => [(key, value)]
  | field :: fields =>
    if field.1 = key then (key, value) :: fields else field :: put key value fields

end ModulePack.Toml
