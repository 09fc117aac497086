import ModulePack.Manifest.Basic
import ModulePack.Path.Relative

/-!
# Local dependencies

A dependency `file:…` names a place by its path from the package. In the output's manifest the path
has to lead there from the output. `keys_rebaseAll` says that all keys stay, in order.
-/

namespace ModulePack.Dependencies

/-- What stands in front of the path of a local dependency. -/
def marker : Text := "file:".toList

/-- The path of a local dependency. -/
def local? : Json → Option Path
  | .string s => Text.after? marker s
  | _ => none

/-- The path from `target` to the place that `path` leads to from `source`; the place itself where
there is no such path. -/
def rebase (source target path : Path) : Path :=
  let place := Path.resolve source [path]
  Path.forwardSlashes ((Path.relative? target place).getD place)

/-- A dependency as it is seen from `target`; only local ones change. -/
def rebaseSpec (source target : Path) (spec : Json) : Json :=
  match local? spec with
  | some path => .string (marker ++ rebase source target path)
  | none => spec

/-- All dependencies as they are seen from `target`. -/
def rebaseAll (source target : Path) (fields : Json.Fields) : Json.Fields :=
  fields.map fun (key, spec) => (key, rebaseSpec source target spec)

/-- A line for each dependency that changes. -/
def rebaseLog (source target : Path) (fields : Json.Fields) : Log :=
  fields.filterMap fun (key, spec) =>
    (local? spec).map fun path =>
      ⟨.debug, "Rewrote dependency ".toList ++ key ++ ": ".toList ++ spec.compact ++ " -> ".toList
        ++ marker ++ rebase source target path⟩

@[simp] theorem keys_rebaseAll (source target : Path) (fields : Json.Fields) :
    (rebaseAll source target fields).keys = fields.keys := by
  simp [rebaseAll, Json.Fields.keys]

end ModulePack.Dependencies
