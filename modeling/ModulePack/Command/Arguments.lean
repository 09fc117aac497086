import ModulePack.Failure

/-!
# Command line arguments

The command line is `[options] build [options]`. Options of the whole program may stand on either
side of the command; the settings belong to `build`. `parse` answers with the invocation or with why
there is none, and `help` and `version` are among the reasons.
-/

namespace ModulePack.Command

/-- Why arguments give nothing to run. -/
inductive Stop where
  | help
  | version
  | nothingGiven
  | missingCommand
  | unknownCommand
  | unknownArgument
  /-- An option without its value, or with an empty one where that names no file. -/
  | missingValue
  | unexpectedValue
  | repeated
  deriving DecidableEq

/-- Asking for help or the version is no mistake. -/
def Stop.exitCode : Stop → Nat
  | .help | .version => 0
  | _ => 2

structure Invocation where
  verbose : Bool
  config : Option Path
  /-- The settings given, each at most once. -/
  settings : List (Setting × Text)
  deriving DecidableEq

inductive Key where
  | config
  | setting (s : Setting)
  deriving DecidableEq

inductive Switch where
  | help
  | version
  | verbose
  | key (k : Key)
  deriving DecidableEq

/-- Where an argument stands: before the command or behind it. -/
inductive Place where
  | program
  | build
  deriving DecidableEq

def buildName : Text := "build".toList
def helpName : Text := "help".toList

/-- The switches of the whole program, with their long and short names. -/
def programSwitches : List (Text × Char × Switch) :=
  [("help".toList, 'h', .help), ("version".toList, 'V', .version),
   ("verbose".toList, 'v', .verbose), ("config".toList, 'c', .key .config)]

def switches : Place → List (Text × Char × Switch)
  | .program => programSwitches
  | .build =>
    programSwitches ++
      [("package".toList, 'p', .key (.setting .packagePath)),
       ("source".toList, 's', .key (.setting .sourcePath)),
       ("output".toList, 'o', .key (.setting .outputPath)),
       ("name".toList, 'n', .key (.setting .packageName))]

def longSwitch? (place : Place) (name : Text) : Option Switch :=
  ((switches place).find? fun (long, _, _) => long == name).map fun (_, _, switch) => switch

def shortSwitch? (place : Place) (name : Char) : Option Switch :=
  ((switches place).find? fun (_, short, _) => short == name).map fun (_, _, switch) => switch

inductive Pending where
  | none
  /-- The next argument is the value. -/
  | awaiting (key : Key)
  /-- The value has been read, but not yet taken in. -/
  | read (key : Key) (value : Text)
  deriving DecidableEq

structure Parsed where
  verbose : Bool
  values : List (Key × Text)
  pending : Pending
  deriving DecidableEq

namespace Parsed

def empty : Parsed := ⟨false, [], .none⟩

/-- A value taken in. An option stands once, and an empty text names no configuration file. -/
def store (p : Parsed) (key : Key) (value : Text) : Except Stop Parsed :=
  if p.values.any fun entry => entry.1 = key then .error .repeated
  else if key = .config ∧ value = [] then .error .missingValue
  else .ok { p with values := p.values ++ [(key, value)], pending := .none }

def settle (p : Parsed) : Except Stop Parsed :=
  match p.pending with
  | .none => .ok p
  | .awaiting _ => .error .missingValue
  | .read key value => p.store key value

def apply (p : Parsed) (switch : Switch) : Except Stop Parsed := do
  let p ← p.settle
  match switch with
  | .help => .error .help
  | .version => .error .version
  | .verbose => if p.verbose then .error .repeated else .ok { p with verbose := true }
  | .key key => .ok { p with pending := .awaiting key }

def assign (p : Parsed) (key : Key) (value : Text) : Except Stop Parsed := do
  (← p.settle).store key value

/-- A long switch, with the value behind its equals sign if there is one. -/
def long (p : Parsed) (place : Place) (name : Text) (value : Option Text) : Except Stop Parsed :=
  match longSwitch? place name, value with
  | none, _ => .error .unknownArgument
  | some (.key key), some value => p.assign key value
  | some _, some _ => .error .unexpectedValue
  | some switch, none => p.apply switch

/-- Short switches in one argument. What stands behind an option is its value, less an equals sign.
-/
def short (p : Parsed) (place : Place) : Text → Except Stop Parsed
  | [] => .ok p
  | c :: rest =>
    match shortSwitch? place c with
    | none => .error .unknownArgument
    | some (.key key) =>
      match rest with
      | [] => p.apply (.key key)
      | '=' :: value => p.assign key value
      | value => p.assign key value
    | some switch => do short (← p.apply switch) place rest

end Parsed

/-- The name in a long argument and the value behind its first equals sign. -/
def splitLong (s : Text) : Text × Option Text :=
  match Text.cut? ['='] s with
  | some (name, value) => (name, some value)
  | none => (s, none)

/-- An argument that is neither a switch nor a value. Before the command it can only be meant as
one; `literal` if it stands behind a double hyphen, where no command may. -/
def stray (place : Place) (literal : Bool) (argument : Text) : Stop :=
  match place with
  | .build => .unknownArgument
  | .program =>
    if literal && (argument == buildName || argument == helpName) then .unknownArgument
    else .unknownCommand

/-- What asking for the help of commands comes to. -/
def helpFor : (commands : List Text) → Stop
  | [] => .help
  | [command] => if command = buildName ∨ command = helpName then .help else .unknownCommand
  | _ => .unknownCommand

/-- The arguments of one place, and those behind the command `build` if it is reached. -/
def scan (place : Place) : Parsed → List Text → Except Stop (Parsed × Option (List Text))
  | p, [] => .ok (p, none)
  | p, argument :: rest =>
    let awaited := match p.pending with
      | .awaiting key => some key
      | _ => none
    if place = .program ∧ awaited.isNone ∧ argument = buildName then .ok (p, some rest)
    else if place = .program ∧ awaited.isNone ∧ argument = helpName then .error (helpFor rest)
    else
      match argument with
      | ['-', '-'] =>
        match rest with
        | [] => .ok (p, none)
        | argument :: _ => .error (stray place true argument)
      | '-' :: '-' :: s => do
        let (name, value) := splitLong s
        scan place (← p.long place name value) rest
      | '-' :: c :: s => do scan place (← p.short place (c :: s)) rest
      | _ =>
        match awaited with
        | some key => scan place { p with pending := .read key argument } rest
        | none => .error (stray place false argument)

def parse (arguments : List Text) : Except Stop Invocation := do
  let (outer, command) ← scan .program .empty arguments
  match command with
  | none =>
    let outer ← outer.settle
    .error (if outer.verbose ∨ outer.values ≠ [] then .missingCommand else .nothingGiven)
  | some rest =>
    let (inner, _) ← scan .build .empty rest
    let inner ← inner.settle
    let outer ← outer.settle
    let value := fun (p : Parsed) key => (p.values.find? fun entry => entry.1 = key).map Prod.snd
    .ok {
      verbose := inner.verbose || outer.verbose
      config := (value inner .config).orElse fun _ => value outer .config
      settings := inner.values.filterMap fun (key, text) =>
        match key with
        | .setting s => some (s, text)
        | .config => none }

end ModulePack.Command
