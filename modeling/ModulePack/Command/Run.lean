import ModulePack.Build.Run
import ModulePack.Command.Arguments
import ModulePack.Measure

/-!
# Running the command

The settings come from a configuration file, if one is given or found, and from the arguments, which
win. What the reader is told beside the log is `Outcome.messages`.
-/

namespace ModulePack.Command

inductive Stage where
  | loading (config : Path)
  | building
  deriving DecidableEq

def Stage.text : Stage → Text
  | .loading config => "Failed to load ".toList ++ config
  | .building => "Build failed".toList

/-- Settings read from a file; a relative path is seen from `cwd`. The directory of the file becomes
the base. -/
def loadSettings (cwd config : Path) (d : Disk) : Except Failure Settings :=
  let path := Path.append cwd config
  match d.readText path with
  | .error fault => .error (.io path fault)
  | .ok text =>
    match Settings.File.parse? text with
    | none => .error (.configSyntax path)
    | some file =>
      let s := Settings.new cwd ((Path.parent? path).getD ['.'])
      match s.apply file with
      | (s, .ok ()) => .ok s
      | (_, .error failure) => .error failure

/-- The configuration file to use: the one given, or the one in `cwd` that need not be. -/
def configFile? (i : Invocation) (cwd : Path) (d : Disk) : Option Path :=
  match i.config with
  | some config => some config
  | none =>
    if d.isFile (Path.append cwd Settings.fileName) then some Settings.fileName else none

def defaultSettings (cwd : Path) : Settings := (Settings.new cwd cwd).set ['.'] .packagePath

/-- The settings of a build: those of the configuration file, or the defaults, with those of the
arguments in their place. -/
def settings (i : Invocation) (cwd : Path) (d : Disk) : Except (Stage × Failure) Settings := do
  let s ←
    match configFile? i cwd d with
    | none => .ok (defaultSettings cwd)
    | some config => (loadSettings cwd config d).mapError fun failure => (.loading config, failure)
  return i.settings.foldl (fun s (setting, text) => s.set text setting) s

/-- What is logged while the settings are put together. -/
def settingsLog (i : Invocation) (cwd : Path) (d : Disk) : Log :=
  match configFile? i cwd d with
  | none => []
  | some config =>
    ⟨.info, "Loading configuration from ".toList ++ config⟩ ::
      match loadSettings cwd config d with
      | .ok _ => [⟨.debug, "Loaded configuration from ".toList ++ Path.append cwd config⟩]
      | .error _ => []

/-- The lines before anything is done. -/
def banner : Text := "\numdpack v0.1.0\n\n".toList

def building : Text := "→ Building package...\n".toList

/-- The lines after a build; `elapsed` says how long it took. -/
def summary (r : Report) (elapsed : Text) : Text :=
  "\n✓ Wrote ".toList ++ Text.ofNat r.artifacts.length ++ " file(s) (".toList
    ++ sizeText r.totalSize ++ ") in ".toList ++ elapsed ++ "\n\n".toList
    ++ (r.artifacts.flatMap fun a =>
      "  • ".toList ++ a.path ++ " ".toList ++ sizeText a.size ++ "\n".toList)
    ++ "\n  fingerprint ".toList ++ r.fingerprint ++ "\n\n".toList

structure Outcome where
  result : Except (Stage × Failure) Report
  log : Log
  disk : Disk

/-- Runs a build as it was invoked in the directory `cwd`. -/
def run (i : Invocation) (cwd : Path) (d : Disk) : Outcome :=
  match settings i cwd d with
  | .error failure => ⟨.error failure, settingsLog i cwd d, d⟩
  | .ok s =>
    let outcome := (Builder.new s).build d
    ⟨outcome.result.mapError fun failure => (.building, failure),
      settingsLog i cwd d ++ outcome.log, outcome.disk⟩

/-- What the reader is told; `elapsed` says how long the command took. -/
def Outcome.messages (o : Outcome) (elapsed : Text) : Text :=
  banner ++
    match o.result with
    | .error (.loading _, _) => []
    | .error (.building, _) => building
    | .ok report => building ++ summary report elapsed

end ModulePack.Command
