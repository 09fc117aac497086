import ModulePack.Failure
import ModulePack.Json.Reader
import ModulePack.Json.Writer
import ModulePack.Log
import ModulePack.Text.Lines
import ModulePack.Text.Quoted
import ModulePack.Version

/-!
# Manifests

A package's manifest is a JSON object, from which the manifest of the output is derived:
`synthesize` takes over the fields that it knows, in a fixed order, and `field?_name` to
`field?_of_copied` say what each of them becomes.
-/

namespace ModulePack

structure Manifest where
  /-- Where it was read. -/
  path : Path
  fields : Json.Fields

namespace Manifest

def fileName : Text := "package.json".toList

/-- The keys of an output manifest. -/
def nameKey : Text := "name".toList
def versionKey : Text := "version".toList
def mainKey : Text := "main".toList
def dependenciesKey : Text := "dependencies".toList

/-- All keys of an output manifest, in order. -/
def keys : List Text :=
  [nameKey, versionKey, "description".toList, "author".toList, "license".toList,
   "repository".toList, mainKey, dependenciesKey]

/-- The module that an output manifest names. -/
def entryModule : Text := "./index.js".toList

/-- The manifest in a text. -/
def parse (path : Path) (text : Text) : Except Failure Manifest :=
  match Json.parse? text with
  | none => .error (.manifestSyntax path)
  | some (.object fields) => .ok ⟨path, fields⟩
  | some _ => .error (.manifestShape path)

def get? (m : Manifest) (key : Text) : Option Json := m.fields.get? key

/-- The package's name, where it is a text. -/
def name? (m : Manifest) : Option Text := m.get? nameKey >>= Json.text?

def version? (m : Manifest) : Option Json := m.get? versionKey

/-- The dependencies, where they are an object. -/
def dependencies? (m : Manifest) : Option Json.Fields := m.get? dependenciesKey >>= Json.fields?

/-- A warning where the version is a text, but no semantic version. -/
def warnings (m : Manifest) : Log :=
  match m.version? with
  | some (.string version) =>
    if Version.isVersion version then []
    else [⟨.warn, "Version ".toList ++ Text.quoted version ++ " in ".toList ++ m.path
      ++ " is not a valid semantic version".toList⟩]
  | _ => []

/-- A field of the manifest, where it is truthy. -/
def truthy? (m : Manifest) (key : Text) : Option Json := (m.get? key).filter Json.isTruthy

/-- The value that an output manifest has under a key. A given name overrides the package's own
unless it is empty; given dependencies take the place of the package's. -/
def field? (m : Manifest) (name : Text) (dependencies : Option Json.Fields) (key : Text) :
    Option Json :=
  if key = nameKey then if name = [] then m.get? key else some (.string name)
  else if key = mainKey then some (.string entryModule)
  else if key = dependenciesKey then
    (m.truthy? key).map fun value => (dependencies.map Json.object).getD value
  else m.truthy? key

/-- The fields of the output manifest. -/
def synthesize (m : Manifest) (name : Text) (dependencies : Option Json.Fields) : Json.Fields :=
  keys.filterMap fun key => (m.field? name dependencies key).map fun value => (key, value)

/-- A manifest as it is written to a file. -/
def text (fields : Json.Fields) : Text := Json.pretty (.object fields) ++ Text.lineEnd

theorem field?_name (m : Manifest) (name : Text) (dependencies : Option Json.Fields) :
    m.field? name dependencies nameKey =
      if name = [] then m.get? nameKey else some (.string name) := by
  simp [field?]

theorem field?_main (m : Manifest) (name : Text) (dependencies : Option Json.Fields) :
    m.field? name dependencies mainKey = some (.string entryModule) := by
  simp [field?, show mainKey ≠ nameKey by decide]

theorem field?_dependencies (m : Manifest) (name : Text) (dependencies : Option Json.Fields) :
    m.field? name dependencies dependenciesKey =
      (m.truthy? dependenciesKey).map fun value => (dependencies.map Json.object).getD value := by
  simp [field?, show dependenciesKey ≠ nameKey by decide, show dependenciesKey ≠ mainKey by decide]

theorem field?_of_copied (m : Manifest) (name : Text) (dependencies : Option Json.Fields)
    {key : Text} (h : key ∉ [nameKey, mainKey, dependenciesKey]) :
    m.field? name dependencies key = m.truthy? key := by
  simp only [List.mem_cons, List.not_mem_nil, not_or, or_false] at h
  simp [field?, h]

end Manifest

end ModulePack
