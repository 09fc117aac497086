import ModulePack.Json.Token

/-!
# Reading JSON

`parse?` runs over the tokens of a text with the open containers on a stack. It accepts the JSON
grammar, strictly, with at most `maxDepth` containers around a value.
-/

namespace ModulePack.Json

/-- An open container with what has been read of it. -/
inductive Frame where
  | array (items : List Json)
  | object (fields : Fields) (key : Text)

/-- What may come next, given the open containers from the inside out. -/
inductive Expect where
  | value (stack : List Frame)
  /-- A value, or the end of an array just opened. -/
  | item (stack : List Frame)
  /-- A key, or the end of an object just opened. -/
  | field (stack : List Frame)
  | key (fields : Fields) (stack : List Frame)
  | colon (fields : Fields) (key : Text) (stack : List Frame)
  /-- What may follow the value that has just ended. -/
  | after (value : Json) (stack : List Frame)

/-- The most containers around a value. -/
def maxDepth : Nat := 127

/-- The state after a token that starts a value. -/
def beginValue (stack : List Frame) : Token → Option Expect
  | .scalar v => some (.after v stack)
  | .arrayStart => if stack.length < maxDepth then some (.item stack) else none
  | .objectStart => if stack.length < maxDepth then some (.field stack) else none
  | _ => none

/-- The state after one token. -/
def Expect.next? : Expect → Token → Option Expect
  | .item stack, .arrayEnd => some (.after (.array []) stack)
  | .item stack, t => beginValue (.array [] :: stack) t
  | .field stack, .objectEnd => some (.after (.object []) stack)
  | .field stack, .scalar (.string k) => some (.colon [] k stack)
  | .key fields stack, .scalar (.string k) => some (.colon fields k stack)
  | .colon fields k stack, .colon => some (.value (.object fields k :: stack))
  | .value stack, t => beginValue stack t
  | .after v (.array items :: stack), .comma => some (.value (.array (items ++ [v]) :: stack))
  | .after v (.array items :: stack), .arrayEnd => some (.after (.array (items ++ [v])) stack)
  | .after v (.object fields k :: stack), .comma => some (.key (fields.put k v) stack)
  | .after v (.object fields k :: stack), .objectEnd =>
    some (.after (.object (fields.put k v)) stack)
  | _, _ => none

/-- The value of a text, where it is JSON. -/
def parse? (s : Text) : Option Json := do
  let final ← (← tokens? s).foldlM Expect.next? (.value [])
  match final with
  | .after v [] => some v
  | _ => none

end ModulePack.Json
