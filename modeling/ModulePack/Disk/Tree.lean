import ModulePack.Digest.Sha256
import ModulePack.Disk.Access

/-!
# Files and directory trees

Copies and digests of whatever a path leads to. A digest visits the entries of a directory in order
of name, a copy in the order in which they are listed, each directory before what is in it.
-/

namespace ModulePack.Disk

/-- An entry of a tree: its path from the root of the tree, and what stands there. -/
abbrev Entry := Path × Node

/-- Everything below a location, with the path from there. -/
def treeBelow (d : Disk) (l : Location) : List Entry :=
  (d.below l).map fun (k, node) => (Text.join ['/'] (k.drop l.length), node)

/-- Whether the path itself names a link, be it to a directory. -/
def isLink (d : Disk) (p : Path) : Bool :=
  match d.locate .keep p with
  | .ok l =>
    match d.get? l with
    | some (.link _) => true
    | _ => false
  | .error _ => false

/-- What a path leads to copied as a file, with the number of bytes. -/
def copyContent (d : Disk) (source target : Path) : Except Failure Nat × Disk :=
  match d.copyFile source target with
  | .ok (count, d) => (.ok count, d)
  | .error fault => (.error (.io source fault), d)

/-- Copies made in turn until one is refused, each on the disk that the one before left, with the
number of bytes of all. -/
def copyEach (copyEntry : Text → Disk → Except Failure Nat × Disk) :
    List Text → Disk → Except Failure Nat × Disk
  | [], d => (.ok 0, d)
  | name :: rest, d =>
    match copyEntry name d with
    | (.error failure, d) => (.error failure, d)
    | (.ok count, d) =>
      let (copied, d) := copyEach copyEntry rest d
      (copied.map (count + ·), d)

/-- The names in the directory at a location, in an order that is up to the file system. -/
abbrev Listing := Disk → Location → List Text

/-- The directory at a location, to which `source` leads, copied to `target` with all that is in it.
Directories in it are made, and files and what links lead to are copied as files. What is in a
directory is listed when its copy has been made: a directory copied to a place inside it takes
its copies along, ever deeper, until their paths are too long. So `depth` levels are enough if no
path to a deeper one is allowed. -/
def copyDirectory (listing : Listing) : (depth : Nat) → Location → (source target : Path) → Disk →
    Except Failure Nat × Disk
  | 0, _, _, target, d => (.error (.io target .nameTooLong), d)
  | depth + 1, l, source, target, d =>
    match d.makeDirectories target with
    | (.error fault, d) => (.error (.io target fault), d)
    | (.ok (), d) =>
      copyEach (fun name d =>
        let entry := l ++ [name]
        let source := Path.append source name
        let target := Path.append target name
        if d.get? entry = some .directory then
          copyDirectory listing depth entry source target d
        else d.copyContent source target) (listing d l) d

/-- The file or the tree that a path leads to copied, with the number of bytes. A link to a
directory is not taken for a tree: it is refused. -/
def copyListed (d : Disk) (listing : Listing) (source target : Path) :
    Except Failure Nat × Disk :=
  match d.find source with
  | .error fault => (.error (.io source fault), d)
  | .ok (l, .directory) =>
    if d.isLink source then (.error (.io source .notAFile), d)
    else copyDirectory listing maxPath l source (Path.append target []) d
  | .ok _ => d.copyContent source target

/-- A copy by a file system that lists directories in order of name. -/
def copy (d : Disk) (source target : Path) : Except Failure Nat × Disk :=
  d.copyListed names source target

/-- What a digest of a tree covers: each path, a zero byte, and the content. -/
def treeBytes (d : Disk) (root : Path) : List Entry → Except Failure Bytes
  | [] => .ok []
  | (_, .directory) :: rest => d.treeBytes root rest
  | (p, _) :: rest =>
    let file := Path.append root p
    match d.readBytes file with
    | .ok content => do
      .ok (Bytes.ofText (Path.forwardSlashes p) ++ 0 :: content ++ (← d.treeBytes root rest))
    | .error fault => .error (.io file fault)

/-- What the digest of a path covers: the content of a file, or all of a tree. A link to a directory
counts as a file, which cannot be read. -/
def digestBytes (d : Disk) (p : Path) : Except Failure Bytes :=
  match d.find p with
  | .error fault => .error (.io p fault)
  | .ok (l, .directory) =>
    if d.isLink p then .error (.io p .isADirectory) else d.treeBytes p (d.treeBelow l)
  | .ok (_, .file content) => .ok content
  | .ok (_, .link _) => .error (.io p .tooManyLinks)

def digest (d : Disk) (p : Path) : Except Failure Text := (d.digestBytes p).map hexDigest

end ModulePack.Disk
