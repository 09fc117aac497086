import ModulePack.Disk.Walk

/-!
# Reading and changing the file system

Each request either succeeds or is refused with a `Fault`. Those that change several things in turn
also answer with the disk as it is when one of them is refused.
-/

namespace ModulePack.Disk

/-- The content of the file that a path leads to. -/
def readBytes (d : Disk) (p : Path) : Except Fault Bytes := do
  match ← d.find p with
  | (_, .file content) => .ok content
  | _ => .error .isADirectory

def readText (d : Disk) (p : Path) : Except Fault Text := do
  match Bytes.toText? (← d.readBytes p) with
  | some text => .ok text
  | none => .error .invalidUtf8

/-- A file with the given content where a path leads, made if there is none. -/
def writeBytes (d : Disk) (p : Path) (content : Bytes) : Except Fault Disk := do
  let l ← d.locate .create p
  match d.get? l with
  | some .directory => .error .isADirectory
  | _ => .ok (d.put l (.file content))

def writeText (d : Disk) (p : Path) (text : Text) : Except Fault Disk :=
  d.writeBytes p (Bytes.ofText text)

def list (d : Disk) (p : Path) : Except Fault (List Text) := do
  match ← d.find p with
  | (l, .directory) => .ok (d.names l)
  | _ => .error .notADirectory

/-- The entry that a path names removed: a link rather than what it leads to, a directory with all
that is in it. The path is followed again before the directory itself goes. If a link on the way
went with what was in the directory, the path leads nowhere by then, and the directory stays,
empty. -/
def removeEntry (d : Disk) (p : Path) : Except Fault Unit × Disk :=
  match d.locate .keep p with
  | .error fault => (.error fault, d)
  | .ok l =>
    if d.get? l = none then (.error .noSuchFile, d)
    else
      let emptied := d.removeBelow l
      (.ok (), if (emptied.locate .keep p).isOk then emptied.remove l else emptied)

/-- The entries with the given names in a directory removed in turn. -/
def removeEntries (directory : Path) : List Text → Disk → Except Failure Unit × Disk
  | [], d => (.ok (), d)
  | name :: rest, d =>
    let entry := Path.append directory name
    match d.removeEntry entry with
    | (.ok (), d) => removeEntries directory rest d
    | (.error fault, d) => (.error (.io entry fault), d)

/-- Everything in the directory that a path leads to removed. A missing directory stays missing. -/
def clear (d : Disk) (p : Path) : Except Failure Unit × Disk :=
  match d.find p with
  | .ok (l, .directory) => removeEntries p (d.names l) d
  | .ok _ => (.error (.io p .notADirectory), d)
  | .error .noSuchFile => (.ok (), d)
  | .error fault => (.error (.io p fault), d)

/-- A path without the slashes at its end. -/
def trimSlashes (p : Path) : Path := (p.reverse.dropWhile (· == '/')).reverse

/-- One new directory in a directory that is there. The slashes at the end of its path have no effect
but on the length that a path may have. -/
def makeDirectory (d : Disk) (p : Path) : Except Fault Disk := do
  let trimmed := trimSlashes p
  let l ← d.locate .keep (if trimmed = [] ∨ maxPath < p.byteCount then p else trimmed)
  match d.get? l with
  | some _ => .error .fileExists
  | none => .ok (d.put l .directory)

/-- A new directory, unless there is one already. -/
def ensureDirectory (d : Disk) (p : Path) : Except Fault Unit × Disk :=
  match d.makeDirectory p with
  | .ok d => (.ok (), d)
  | .error fault => (if d.isDirectory p then .ok () else .error fault, d)

/-- A directory with up to `above` missing ones above it. -/
def makeChain : (above : Nat) → Path → Disk → Except Fault Unit × Disk
  | 0, p, d => d.ensureDirectory p
  | above + 1, p, d =>
    match d.ensureDirectory p with
    | (.error .noSuchFile, d) =>
      match Path.parent? p with
      | none => (.error .noSuchFile, d)
      | some parent =>
        match makeChain above parent d with
        | (.ok (), d) => d.ensureDirectory p
        | (.error fault, d) => (.error fault, d)
    | answer => answer

/-- A directory with all the missing ones above it; one that is there is left as it is. Nothing is
made for the empty path, although it leads to no directory, and yet the request succeeds. -/
def makeDirectories (d : Disk) (p : Path) : Except Fault Unit × Disk :=
  if p = [] then (.ok (), d) else makeChain p.length p d

/-- The file that `source` leads to copied to where `target` leads, with the number of bytes. The
target is emptied before anything is read, so that a file copied to itself is lost. -/
def copyFile (d : Disk) (source target : Path) : Except Fault (Nat × Disk) := do
  match ← d.find source with
  | (l, .file _) => do
    let emptied ← d.writeBytes target []
    match emptied.get? l with
    | some (.file content) => .ok (content.length, ← emptied.writeBytes target content)
    | _ => .error .notAFile
  | _ => .error .notAFile

end ModulePack.Disk
