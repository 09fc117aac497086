import ModulePack.Failure
import ModulePack.Toml.Moment
import ModulePack.Toml.Reader

/-!
# Settings of a build

Where the package is, where its sources are and where the output goes, all seen from a base
directory. Settings come one by one or from a configuration file; `validate` refuses those that
leave a path out. `get_set` says what a setting is after it has been given a value.
-/

namespace ModulePack

structure Settings where
  /-- The directory that relative settings are seen from. -/
  base : Path
  /-- A name for the output manifest; the package's own where it is empty. -/
  name : Text
  /-- The package, seen from `base`. -/
  package : Path
  /-- The sources, seen from the package. -/
  source : Path
  /-- The output, seen from the package. -/
  output : Path
  deriving DecidableEq

namespace Settings

def defaultSource : Path := "src".toList
def defaultOutput : Path := "lib".toList

/-- The name of a configuration file that need not be given. -/
def fileName : Text := "umdpack.toml".toList

/-- Settings with default paths below the package, which is not set. A relative base is seen from
`cwd`; an empty one stays empty, and with it all paths stay relative. -/
def new (cwd base : Path) : Settings where
  base := Path.normalize (if base = [] then [] else Path.append cwd base)
  name := []
  package := []
  source := defaultSource
  output := defaultOutput

def get (s : Settings) : Setting → Text
  | .packageName => s.name
  | .packagePath => s.package
  | .sourcePath => s.source
  | .outputPath => s.output

def set (s : Settings) (value : Text) : Setting → Settings
  | .packageName => { s with name := value }
  | .packagePath => { s with package := value }
  | .sourcePath => { s with source := value }
  | .outputPath => { s with output := value }

/-- A setting given a value of any type, or reset to empty. -/
def setValue (s : Settings) (setting : Setting) : Option Toml.Value → Except Failure Settings
  | none => .ok (s.set [] setting)
  | some (.string text) => .ok (s.set text setting)
  | some value => .error (.invalidArgument setting value.kind)

def packagePath (s : Settings) : Path := Path.resolve s.base [s.package]

def sourcePath (s : Settings) : Path := Path.resolve s.base [s.package, s.source]

def outputPath (s : Settings) : Path := Path.resolve s.base [s.package, s.output]

/-- The settings that may not be empty, in the order in which they are looked at. -/
def required : List Setting := [.packagePath, .sourcePath, .outputPath]

/-- Refuses the first required setting that is empty. -/
def validate (s : Settings) : Except Failure Unit :=
  match required.find? fun setting => s.get setting = [] with
  | some setting => .error (.missingSetting setting)
  | none => .ok ()

/-! ### Configuration files -/

/-- The settings that a configuration file gives, in the order in which they apply. -/
abbrev File := List (Setting × Toml.Value)

namespace File

/-- The settings with their keys in the file. -/
def keys : List (Setting × Text) :=
  [(.packageName, "name".toList), (.packagePath, "path".toList), (.sourcePath, "source".toList),
   (.outputPath, "output".toList)]

/-- The settings in the value under `package`: by key in a table, by position in an array. A point
in time counts as a table with none of them. -/
def ofPackage? : Toml.Value → Option File
  | .table fields => some <| keys.filterMap fun (setting, key) =>
      (Toml.get? key fields).map fun value => (setting, value)
  | .array items => some <| (keys.map Prod.fst).zip items
  | .datetime _ => some []
  | _ => none

/-- The settings with the points in time that their values stand for. -/
def withMoments? (file : File) : Option File :=
  file.mapM fun (setting, value) => value.withMoments?.map fun value => (setting, value)

def parse? (text : Text) : Option File := do
  match Toml.get? "package".toList (← Toml.parse? text) with
  | none => some []
  | some value => ofPackage? value >>= withMoments?

end File

/-- The settings of a file applied in turn, up to the first that is no text. -/
def apply (s : Settings) : File → Settings × Except Failure Unit
  | [] => (s, .ok ())
  | (setting, value) :: file =>
    match s.setValue setting (some value) with
    | .ok s => apply s file
    | .error failure => (s, .error failure)

theorem get_set (s : Settings) (value : Text) (setting other : Setting) :
    (s.set value setting).get other = if setting = other then value else s.get other := by
  cases setting <;> cases other <;> rfl

@[simp] theorem base_set (s : Settings) (value : Text) (setting : Setting) :
    (s.set value setting).base = s.base := by
  cases setting <;> rfl

end Settings

end ModulePack
