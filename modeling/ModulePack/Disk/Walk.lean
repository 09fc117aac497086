import ModulePack.Disk.Basic

/-!
# From paths to locations

A path is followed name by name from the root. A link on the way is replaced by its target, at most
`maxLinks` times; whether one in the last place is, and whether something has to stand there, is up
to the purpose.
-/

namespace ModulePack.Disk

/-- What a path is followed for. -/
inductive Ending where
  /-- To reach what stands there, through links. -/
  | follow
  /-- To reach the entry itself, be it a link. -/
  | keep
  /-- To write a file there, through links. -/
  | create
  deriving DecidableEq

/-- How many links one path may lead through. -/
def maxLinks : Nat := 40

/-- How many bytes a name, and a path, may have. -/
def maxName : Nat := 255
def maxPath : Nat := 4095

/-- The steps of a path. A slash at its end is a step of its own, which is empty. -/
def steps (p : Path) : List Text :=
  let pieces := Path.pieces p
  pieces.filter (· ≠ []) ++ (if pieces.getLast? = some [] then [[]] else [])

/-- Steps that stay in the directory where they are taken. -/
def isStay (step : Text) : Bool := step == [] || step == ['.']

/-- The location that steps lead to from a directory, where `jump` follows the target of a link and
the steps after it. Nothing need stand at the last step. A slash behind the name of a file to be
written is refused. -/
def walkWith (d : Disk) (ending : Ending) (jump : Location → List Text → Except Fault Location) :
    Location → List Text → Except Fault Location
  | here, [] => .ok here
  | here, step :: rest =>
    if isStay step then walkWith d ending jump here rest
    else if step = ['.', '.'] then walkWith d ending jump here.dropLast rest
    else if ending = .create ∧ rest = [[]] then .error .isADirectory
    else if maxName < step.byteCount then .error .nameTooLong
    else
      let next := here ++ [step]
      match d.get? next with
      | none => if rest = [] then .ok next else .error .noSuchFile
      | some (.link target) =>
        if rest = [] ∧ ending = .keep then .ok next
        else jump (if Path.isAbsolute target then [] else here) (steps target ++ rest)
      | some .directory => walkWith d ending jump next rest
      | some (.file _) => if rest = [] then .ok next else .error .notADirectory

/-- The location that steps lead to through at most `links` links. -/
def walk (d : Disk) (ending : Ending) : (links : Nat) → Location → List Text →
    Except Fault Location
  | 0 => d.walkWith ending fun _ _ => .error .tooManyLinks
  | links + 1 => d.walkWith ending (d.walk ending links)

/-- The location that a path names, seen from the root. -/
def locate (d : Disk) (ending : Ending) (p : Path) : Except Fault Location :=
  if '\x00' ∈ p then .error .nulInName
  else if p = [] then .error .noSuchFile
  else if maxPath < p.byteCount then .error .nameTooLong
  else d.walk ending maxLinks [] (steps p)

/-- What stands where a path leads, with its location. -/
def find (d : Disk) (p : Path) : Except Fault (Location × Node) := do
  let l ← d.locate .follow p
  match d.get? l with
  | some node => .ok (l, node)
  | none => .error .noSuchFile

/-- Whether a path leads anywhere. -/
def exists? (d : Disk) (p : Path) : Bool := (d.find p).isOk

def isDirectory (d : Disk) (p : Path) : Bool :=
  match d.find p with
  | .ok (_, .directory) => true
  | _ => false

def isFile (d : Disk) (p : Path) : Bool :=
  match d.find p with
  | .ok (_, .file _) => true
  | _ => false

end ModulePack.Disk
