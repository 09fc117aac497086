import ModulePack.Number.Binary64
import ModulePack.Text.Basic

/-!
# JSON values

An object keeps its fields in order. `Json.put` overwrites a field in its place, so that no key
occurs twice (`keys_put`), and `get?_put` says what a look-up finds afterwards.
-/

namespace ModulePack

/-- A JSON number. A literal that is an integer of 64 bits stays one, with or without sign; any
other is a binary64 number. -/
inductive Json.Number where
  | natural (n : Nat)
  /-- The integer `-n`. -/
  | negative (n : Nat)
  | real (minus : Bool) (magnitude : Binary64)
  deriving DecidableEq

inductive Json where
  | null
  | bool (b : Bool)
  | number (n : Json.Number)
  | string (s : Text)
  | array (items : List Json)
  | object (fields : List (Text × Json))

namespace Json

/-- The fields of an object, in order. -/
abbrev Fields := List (Text × Json)

namespace Fields

def get? (key : Text) : Fields → Option Json
  | [] => none
  | (k, v) :: fields => if k = key then some v else get? key fields

/-- The value under `key` set: in its old place if there is one, else at the end. -/
def put (key : Text) (value : Json) : Fields → Fields
  | [] => [(key, value)]
  | (k, v) :: fields => if k = key then (k, value) :: fields else (k, v) :: put key value fields

def keys (fields : Fields) : List Text := fields.map Prod.fst

theorem get?_put (key other : Text) (value : Json) (fields : Fields) :
    get? other (put key value fields) = if key = other then some value else get? other fields := by
  induction fields with
  | nil => simp [put, get?]
  | cons field fields ih =>
    obtain ⟨k, v⟩ := field
    by_cases hk : k = key
    · subst hk
      by_cases ho : k = other <;> simp [put, get?, ho]
    · by_cases ho : k = other
      · subst ho
        simp [put, get?, hk, Ne.symm hk]
      · simp [put, get?, hk, ho, ih]

theorem keys_put (key : Text) (value : Json) (fields : Fields) :
    keys (put key value fields) =
      if key ∈ keys fields then keys fields else keys fields ++ [key] := by
  induction fields with
  | nil => simp [put, keys]
  | cons field fields ih =>
    obtain ⟨k, v⟩ := field
    simp only [keys] at ih
    by_cases hk : k = key
    · simp [put, keys, hk]
    · have hk' : ¬key = k := fun h => hk h.symm
      simp only [put, hk, if_false, keys, List.map_cons, List.mem_cons, hk', false_or, ih]
      by_cases hmem : key ∈ fields.map Prod.fst <;> simp [hmem]

end Fields

def text? : Json → Option Text
  | .string s => some s
  | _ => none

def fields? : Json → Option Fields
  | .object fields => some fields
  | _ => none

/-- Whether a condition on the value would hold in a script: everything but null, false, zero and
the empty text. -/
def isTruthy : Json → Bool
  | .null => false
  | .bool b => b
  | .number (.natural n) => n != 0
  | .number (.negative _) => true
  | .number (.real _ x) => x.significand != 0
  | .string s => s != []
  | .array _ | .object _ => true

end Json

end ModulePack
