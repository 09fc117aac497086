import ModulePack.Text.Basic

/-!
# Semantic versions

`isVersion` accepts the grammar of SemVer 2.0: three numbers, then a pre-release after a hyphen and
build data after a plus sign, both optional.
-/

namespace ModulePack.Version

/-- The largest number that a version may hold. -/
def maxNumber : Nat := UInt64.size - 1

def isDigits (s : Text) : Bool := !s.isEmpty && s.all Char.isDigit

def value (s : Text) : Nat := s.foldl (fun n c => n * 10 + (c.toNat - '0'.toNat)) 0

/-- A number has no zero in front of other digits. -/
def isNumber (s : Text) : Bool :=
  isDigits s && (s.head? != some '0' || s.length == 1) && value s ≤ maxNumber

def isIdentifier (s : Text) : Bool :=
  !s.isEmpty && s.all fun c => c.isAlphanum || c == '-'

/-- In a pre-release an identifier of digits has no zero in front of others. -/
def isPreReleaseIdentifier (s : Text) : Bool :=
  isIdentifier s && !(s.all Char.isDigit && s.head? == some '0' && 1 < s.length)

def dotted : Text → List Text
  | [] => [[]]
  | c :: s =>
    match dotted s with
    | [] => [[c]]
    | piece :: rest => if c = '.' then [] :: piece :: rest else (c :: piece) :: rest

/-- The text before the first `mark`, and the text after it if there is one. -/
def splitAt (mark : Char) (s : Text) : Text × Option Text :=
  match Text.cut? [mark] s with
  | some (before, after) => (before, some after)
  | none => (s, none)

def isVersion (s : Text) : Bool :=
  let (release, build) := splitAt '+' s
  let (core, preRelease) := splitAt '-' release
  let numbers := dotted core
  numbers.length == 3 && numbers.all isNumber
    && (preRelease.elim true fun p => (dotted p).all isPreReleaseIdentifier)
    && (build.elim true fun b => (dotted b).all isIdentifier)

end ModulePack.Version
