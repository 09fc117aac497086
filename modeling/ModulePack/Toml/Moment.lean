import ModulePack.Toml.Scalar

/-!
# Points in time as tables

A table whose first key is `momentKey` stands for a point in time, which it holds as a text under
that key. `Value.withMoments?` puts points in time in the place of such tables.
-/

namespace ModulePack.Toml

def momentKey : Text := "$__toml_private_datetime".toList

mutual

/-- A value with points in time in the place of the tables that stand for them; none where such a
table holds something else. Further keys of such a table do not count. -/
def Value.withMoments? : Value → Option Value
  | .table ((key, v) :: fields) =>
    if key = momentKey then
      match v with
      | .string s => if isDatetime s then some (.datetime s) else none
      | _ => none
    else do
      let v ← v.withMoments?
      let fields ← fieldsWithMoments? fields
      return .table ((key, v) :: fields)
  | .array items => do return .array (← itemsWithMoments? items)
  | v => some v

def itemsWithMoments? : List Value → Option (List Value)
  | [] => some []
  | v :: items => do return (← v.withMoments?) :: (← itemsWithMoments? items)

def fieldsWithMoments? : List (Text × Value) → Option (List (Text × Value))
  | [] => some []
  | (key, v) :: fields => do return (key, ← v.withMoments?) :: (← fieldsWithMoments? fields)

end

end ModulePack.Toml
