import ModulePack.Digest.Sha256
import ModulePack.Path.Basic

/-!
# Build reports

What a build wrote. The fingerprint of a report covers the names and digests of its artifacts, in
order.
-/

namespace ModulePack

structure Artifact where
  /-- The name in the output directory. -/
  name : Text
  path : Path
  size : Nat
  digest : Text
  deriving DecidableEq

structure Report where
  /-- In the order in which they were written. -/
  artifacts : List Artifact
  /-- The name of each source with the name it is written under. -/
  transpiled : List (Text × Text)
  /-- The header of the entry, if it has one. -/
  entryHeader : Option Text
  deriving DecidableEq

namespace Report

def empty : Report := ⟨[], [], none⟩

/-- What an artifact adds to the fingerprint: name, zero character, digest, line end. -/
def recordText (a : Artifact) : Text := a.name ++ '\x00' :: a.digest ++ ['\n']

/-- What the fingerprint of artifacts covers. -/
def fingerprintBytes (artifacts : List Artifact) : Bytes :=
  Bytes.ofText (artifacts.flatMap recordText)

def fingerprint (r : Report) : Text := hexDigest (fingerprintBytes r.artifacts)

def totalSize (r : Report) : Nat := r.artifacts.foldr (fun a size => a.size + size) 0

end Report

end ModulePack
