import ModulePack.Text.Lowercase

/-!
# File names

Names are ordered alphabetically: by their lower case forms, and by the names themselves where those
agree. A script's name ends in `.js`, in any ASCII case. `sort_perm` and `mem_sort` say that sorting
keeps the names, `isScript_output` that an output name is always a script's.
-/

namespace ModulePack.FileName

/-- Whether `a` may stand before `b`. Texts are compared by code point. -/
def le (a b : Text) : Bool :=
  a.lowercase < b.lowercase || (a.lowercase = b.lowercase && !(b < a))

/-- The alphabetical order of two names. -/
def order (a b : Text) : Ordering :=
  if a = b then .eq else if le a b then .lt else .gt

/-- `name` put in front of the first name that it may precede. -/
def insert (name : Text) : List Text → List Text
  | [] => [name]
  | first :: rest => if le name first then name :: first :: rest else first :: insert name rest

/-- The names in alphabetical order. -/
def sort : List Text → List Text
  | [] => []
  | name :: rest => insert name (sort rest)

/-- The extension of scripts. -/
def scriptExtension : Text := ".js".toList

/-- What stands before a final `.js` in any ASCII case. -/
def stem? (name : Text) : Option Text :=
  let cut := name.length - scriptExtension.length
  if Text.asciiLower (name.drop cut) = scriptExtension then some (name.take cut) else none

/-- Whether the name ends in `.js`. -/
def isScript (name : Text) : Bool := (stem? name).isSome

/-- The name without a final `.js`. -/
def stem (name : Text) : Text := (stem? name).getD name

/-- The name under which a wrapped source is written: with `.js` added where it is missing. -/
def output (name : Text) : Text := if isScript name then name else name ++ scriptExtension

theorem insert_perm (name : Text) (names : List Text) :
    (insert name names).Perm (name :: names) := by
  induction names with
  | nil => exact .refl _
  | cons first rest ih =>
    unfold insert
    split
    · exact .refl _
    · exact (ih.cons first).trans (.swap ..)

theorem sort_perm (names : List Text) : (sort names).Perm names := by
  induction names with
  | nil => exact .refl _
  | cons name rest ih => exact (insert_perm ..).trans (ih.cons name)

theorem mem_sort {name : Text} {names : List Text} : name ∈ sort names ↔ name ∈ names :=
  (sort_perm names).mem_iff

theorem isScript_append (s : Text) : isScript (s ++ scriptExtension) = true := by
  have hlower : Text.asciiLower scriptExtension = scriptExtension := by decide
  simp [isScript, stem?, hlower]

theorem isScript_output (name : Text) : isScript (output name) = true := by
  unfold output
  split
  · assumption
  · exact isScript_append name

end ModulePack.FileName
