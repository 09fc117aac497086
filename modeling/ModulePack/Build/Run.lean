import ModulePack.Build.Report
import ModulePack.Build.Step
import ModulePack.Disk.Tree
import ModulePack.Entry
import ModulePack.Manifest.Dependencies
import ModulePack.Settings

/-!
# Running a build

A build takes the steps of `Step.all` in turn and stops at the first that fails; what has been
written by then stays. Nothing is touched before the settings have been accepted.
-/

namespace ModulePack

def readmeName : Text := "README.md".toList
def licenseName : Text := "LICENSE".toList

structure Records where
  /-- The header of each source wrapped so far. -/
  headers : List Text
  /-- The names of the sources, in build order. -/
  names : List Text
  /-- The package's manifest, once it has been read. -/
  manifest : Option Manifest
  report : Report

def Records.empty : Records := ⟨[], [], none, .empty⟩

structure Progress where
  disk : Disk
  log : Log
  records : Records

/-- A part of a build: it may fail, and what it did until then stays. -/
abbrev Action := EStateM Failure Progress

namespace Action

def log (level : Level) (text : Text) : Action Unit :=
  modify fun p => { p with log := p.log ++ [⟨level, text⟩] }

def record (change : Records → Records) : Action Unit :=
  modify fun p => { p with records := change p.records }

def disk : Action Disk := do return (← get).disk

def setDisk (d : Disk) : Action Unit := modify fun p => { p with disk := d }

/-- The answer of the file system about a path. -/
def ask {α : Type} (path : Path) : Except Fault α → Action α
  | .ok a => pure a
  | .error fault => throw (.io path fault)

def ofExcept {α : Type} : Except Failure α → Action α
  | .ok a => pure a
  | .error failure => throw failure

def addArtifact (a : Artifact) : Action Unit :=
  record fun r => { r with report.artifacts := r.report.artifacts ++ [a] }

/-- A text written to a file of the output. -/
def writeArtifact (directory : Path) (name content : Text) : Action Unit := do
  let path := Path.append directory name
  setDisk (← ask path ((← disk).writeText path content))
  addArtifact ⟨name, path, content.byteCount, hexDigest (Bytes.ofText content)⟩

/-! ### Steps -/

def clean (s : Settings) : Action Unit := do
  log .debug ("Cleaning ".toList ++ s.outputPath)
  let (answer, d) := (← disk).clear s.outputPath
  setDisk d
  ofExcept answer

def prepare (s : Settings) : Action Unit := do
  let (answer, d) := (← disk).makeDirectories s.outputPath
  setDisk d
  ask s.outputPath answer

def wrapSource (s : Settings) (name : Text) : Action Unit := do
  let output := FileName.output name
  log .info ("    ".toList ++ name ++ " -> ".toList ++ output)
  let path := Path.append s.sourcePath name
  let source ← ask path ((← disk).readText path)
  let (header, body) := Wrapped.split source
  log .debug ("Wrapping ".toList ++ Text.ofNat body.byteCount ++ " bytes (header: ".toList
    ++ (if header = [] then "false)".toList else "true)".toList))
  record fun r => { r with headers := r.headers ++ [header] }
  writeArtifact s.outputPath output (Wrapped.ofSource source).text
  record fun r => { r with report.transpiled := r.report.transpiled ++ [(name, output)] }

def forAll {α : Type} (action : α → Action Unit) : List α → Action Unit
  | [] => pure ()
  | a :: rest => do
    action a
    forAll action rest

/-- Wraps the listed sources in alphabetical order; the order of the listing has no effect. -/
def wrapListed (s : Settings) (listing : List Text) : Action Unit := do
  let names := FileName.sort listing
  forAll (wrapSource s) names
  record fun r => { r with names }
  log .debug ("Transpiled ".toList ++ Text.ofNat names.length ++ " file(s)".toList)

def transpile (s : Settings) : Action Unit := do
  log .info "Transpiling source files ...".toList
  wrapListed s (← ask s.sourcePath ((← disk).list s.sourcePath))

/-- The package's manifest, which is read at most once. -/
def manifest (s : Settings) : Action Manifest := do
  match (← get).records.manifest with
  | some m => return m
  | none =>
    let path := Path.append s.packagePath Manifest.fileName
    log .debug ("Loading manifest ".toList ++ path)
    let text ← ask path ((← disk).readText path)
    let m ← ofExcept (Manifest.parse path text)
    modify fun p => { p with log := p.log ++ m.warnings }
    record fun r => { r with manifest := some m }
    return m

def generateEntry (s : Settings) : Action Unit := do
  log .info ("Creating ".toList ++ Entry.fileName)
  let header := (sharedHeader? (← get).records.headers).filter (· ≠ [])
  let m ← manifest s
  writeArtifact s.outputPath Entry.fileName
    (Entry.text (header.getD []) m.version? (← get).records.names)
  record fun r => { r with report.entryHeader := header }

def generateManifest (s : Settings) : Action Unit := do
  log .info ("Creating ".toList ++ Manifest.fileName)
  let m ← manifest s
  let source := s.packagePath
  let target := s.outputPath
  modify fun p => { p with
    log := p.log ++ (m.dependencies?.map (Dependencies.rebaseLog source target)).getD [] }
  let dependencies := m.dependencies?.map (Dependencies.rebaseAll source target)
  writeArtifact target Manifest.fileName (Manifest.text (m.synthesize s.name dependencies))

/-- Copies a file or a tree from the package root, if it is there. -/
def copyOptional (s : Settings) (name : Text) : Action Unit := do
  log .info ("Copying ".toList ++ name)
  let source := Path.append s.packagePath name
  if (← disk).exists? source then
    let target := Path.append s.outputPath name
    let (answer, d) := (← disk).copy source target
    setDisk d
    let size ← ofExcept answer
    let digest ← ofExcept ((← disk).digest target)
    addArtifact ⟨name, target, size, digest⟩
  else
    log .debug ("No ".toList ++ name ++ " at ".toList ++ source ++ ", skipping".toList)

def take (s : Settings) : Step → Action Unit
  | .clean => clean s
  | .prepare => prepare s
  | .transpile => transpile s
  | .generateEntry => generateEntry s
  | .generateManifest => generateManifest s
  | .copyReadme => copyOptional s readmeName
  | .copyLicense => copyOptional s licenseName

end Action

/-! ### Builds -/

def announcement (s : Settings) : Log :=
  [⟨.info, if s.name = [] then "Building package ...".toList
      else "Building package \"".toList ++ s.name ++ "\" ...".toList⟩,
   ⟨.info, "    source: ".toList ++ s.sourcePath⟩,
   ⟨.info, "    output: ".toList ++ s.outputPath⟩]

/-- The steps taken in turn, up to the first that fails, with that step and its failure. -/
def takeSteps (s : Settings) : List Step → Progress → Option (Step × Failure) × Progress
  | [], p => (none, p)
  | step :: rest, p =>
    match Action.take s step p with
    | .ok () p => takeSteps s rest p
    | .error failure p => (some (step, failure), p)

/-- A builder keeps its settings and remembers its last build. -/
structure Builder where
  settings : Settings
  state : State
  records : Records

namespace Builder

def new (settings : Settings) : Builder := ⟨settings, .idle, .empty⟩

structure Outcome where
  result : Except Failure Report
  builder : Builder
  disk : Disk
  log : Log

def build (b : Builder) (d : Disk) : Outcome :=
  match b.settings.validate with
  | .error failure =>
    { result := .error failure
      builder := { b with state := .failed none }
      disk := d
      log := [⟨.error, "Build not started: ".toList ++ failure.message⟩] }
  | .ok () =>
    match takeSteps b.settings Step.all ⟨d, announcement b.settings, .empty⟩ with
    | (some (step, failure), p) =>
      { result := .error failure
        builder := { b with state := .failed (some step), records := p.records }
        disk := p.disk
        log := p.log ++ [⟨.error, "Build failed during ".toList ++ step.name ++ " step: ".toList
          ++ failure.message⟩] }
    | (none, p) =>
      { result := .ok p.records.report
        builder := { b with state := .done, records := p.records }
        disk := p.disk
        log := p.log ++ [⟨.info, "Done.".toList⟩] }

end Builder

end ModulePack
