import ModulePack.Proofs.Disk.Ways

/-!
# Media that give out

A disk is kept on a medium, which may refuse a request, because it is damaged or for want of a
permission, or take no more than the first bytes of a file, because it is full. What succeeds all
the same is what succeeds on a sound medium (`copy_of_ok`), where nothing of the kind happens
(`copy_sound`). A file that is not written as a whole is one with the first bytes
(`writeText_cases`).
-/

namespace ModulePack

open Disk

/-- What is asked of a medium. -/
inductive Request where
  /-- What is there, if anything. -/
  | look
  | read
  | list
  | clear
  | make
  | write
  deriving DecidableEq

/-- How a medium gives out, which depends on the path of a request and on the disk by then. -/
structure Medium where
  /-- Why a request is refused. Nothing is done then. -/
  refuses : Request → Path → Disk → Option Fault
  /-- After how many bytes a file is cut off that is being written, and why. -/
  cuts : Path → Disk → Option (Nat × Fault)
  /-- What is reported if a directory is not cleared, or not made with those above it, and whatever is
  left of the disk then. -/
  spoils : Request → Path → Disk → Option (Failure × Disk)

/-- The disk with the file that a path leads to cut off after some bytes. -/
def Disk.cutOff (d : Disk) (p : Path) (n : Nat) : Disk :=
  match d.find p with
  | .ok (l, .file content) => d.put l (.file (content.take n))
  | _ => d

namespace Medium

variable {w : Medium} {d e : Disk} {p source target : Path} {l : Location} {text : Text}
  {α : Type} {request : Request} {count depth : Nat} {x : Text}

/-- A medium on which nothing goes wrong. -/
def sound : Medium := ⟨fun _ _ _ => none, fun _ _ => none, fun _ _ _ => none⟩

/-! ### Requests -/

/-- An answer about a path, unless the request is refused. -/
def answer (w : Medium) (request : Request) (p : Path) (d : Disk) (a : Except Fault α) :
    Except Fault α :=
  match w.refuses request p d with
  | some fault => .error fault
  | none => a

/-- Whether all of a file is written, and the disk then, where `e` is `d` with all of it. -/
def fill (w : Medium) (p : Path) (d e : Disk) : Except Fault Unit × Disk :=
  match w.refuses .write p d with
  | some fault => (.error fault, d)
  | none =>
    match w.cuts p d with
    | some (n, fault) => (.error fault, e.cutOff p n)
    | none => (.ok (), e)

def clear (w : Medium) (d : Disk) (p : Path) : Except Failure Unit × Disk :=
  match w.spoils .clear p d with
  | some (failure, e) => (.error failure, e)
  | none => d.clear p

def makeDirectories (w : Medium) (d : Disk) (p : Path) : Except Failure Unit × Disk :=
  match w.spoils .make p d with
  | some (failure, e) => (.error failure, e)
  | none =>
    let (answer, e) := d.makeDirectories p
    (answer.mapError (Failure.io p), e)

def writeText (w : Medium) (d : Disk) (p : Path) (text : Text) : Except Fault Unit × Disk :=
  match d.writeText p text with
  | .ok e => w.fill p d e
  | .error fault => (.error fault, d)

/-- Whether something is there, for all that can be seen. -/
def exists? (w : Medium) (d : Disk) (p : Path) : Bool := (w.answer .look p d (d.find p)).isOk

def copyContent (w : Medium) (d : Disk) (source target : Path) : Except Failure Nat × Disk :=
  match w.answer .read source d (d.copyFile source target) with
  | .error fault => (.error (.io source fault), d)
  | .ok (count, e) =>
    match w.fill target d e with
    | (.error fault, e) => (.error (.io source fault), e)
    | (.ok (), e) => (.ok count, e)

def copyDirectory (w : Medium) : (depth : Nat) → Location → (source target : Path) → Disk →
    Except Failure Nat × Disk
  | 0, _, _, target, d => (.error (.io target .nameTooLong), d)
  | depth + 1, l, source, target, d =>
    match w.refuses .make target d with
    | some fault => (.error (.io target fault), d)
    | none =>
      match d.makeDirectories target with
      | (.error fault, d) => (.error (.io target fault), d)
      | (.ok (), d) =>
        match w.refuses .list source d with
        | some fault => (.error (.io source fault), d)
        | none =>
          copyEach (fun name d =>
            let entry := l ++ [name]
            let source := Path.append source name
            let target := Path.append target name
            if d.get? entry = some .directory then
              copyDirectory w depth entry source target d
            else w.copyContent d source target) (d.names l) d

def copy (w : Medium) (d : Disk) (source target : Path) : Except Failure Nat × Disk :=
  match w.answer .read source d (d.find source) with
  | .error fault => (.error (.io source fault), d)
  | .ok (l, .directory) =>
    if d.isLink source then (.error (.io source .notAFile), d)
    else w.copyDirectory maxPath l source (Path.append target []) d
  | .ok _ => w.copyContent d source target

/-- The paths of what a digest reads. -/
def digestPaths (d : Disk) (p : Path) : List Path :=
  match d.find p with
  | .ok (l, .directory) => p :: (d.treeBelow l).map fun entry => Path.append p entry.1
  | _ => [p]

def digest (w : Medium) (d : Disk) (p : Path) : Except Failure Text :=
  match (digestPaths d p).findSome? fun q => (w.refuses .read q d).map (Failure.io q) with
  | some failure => .error failure
  | none => d.digest p

/-! ### A sound medium -/

@[simp] theorem refuses_sound : sound.refuses request p d = none := rfl

@[simp] theorem answer_sound (a : Except Fault α) : sound.answer request p d a = a := rfl

theorem copyContent_sound (d : Disk) (source target : Path) :
    sound.copyContent d source target = d.copyContent source target := by
  unfold copyContent Disk.copyContent
  rw [answer_sound]
  cases d.copyFile source target with
  | error fault => rfl
  | ok copied => rfl

theorem copyDirectory_sound (depth : Nat) (l : Location) (source target : Path) (d : Disk) :
    sound.copyDirectory depth l source target d =
      Disk.copyDirectory names depth l source target d := by
  induction depth generalizing l source target d with
  | zero => rfl
  | succ depth ih =>
    unfold copyDirectory Disk.copyDirectory
    cases hmake : d.makeDirectories target with
    | mk answer e =>
      cases answer with
      | error fault => rfl
      | ok u => simp only [refuses_sound, ih, copyContent_sound]

theorem copy_sound (d : Disk) (source target : Path) :
    sound.copy d source target = d.copy source target := by
  unfold copy Disk.copy copyListed
  rw [answer_sound]
  cases d.find source with
  | error fault => rfl
  | ok found =>
    obtain ⟨l, node⟩ := found
    cases node with
    | directory => simp only [copyDirectory_sound]
    | file content => exact copyContent_sound d source target
    | link => exact copyContent_sound d source target

theorem digest_sound (d : Disk) (p : Path) : sound.digest d p = d.digest p := by
  have hnone : ((digestPaths d p).findSome? fun q =>
      (sound.refuses .read q d).map (Failure.io q)) = none :=
    List.findSome?_eq_none_iff.2 fun q _ => rfl
  rw [digest, hnone]

/-! ### What succeeds -/

theorem eq_ok_of_answer {a : Except Fault α} {value : α}
    (h : w.answer request p d a = .ok value) : a = .ok value := by
  unfold answer at h
  split at h
  · cases h
  · exact h

theorem fill_cases (w : Medium) (p : Path) (d e : Disk) :
    w.fill p d e = (.ok (), e) ∨ (∃ fault, w.fill p d e = (.error fault, d)) ∨
      ∃ n fault, w.cuts p d = some (n, fault) ∧ w.fill p d e = (.error fault, e.cutOff p n) := by
  unfold fill
  split
  · exact .inr (.inl ⟨_, rfl⟩)
  · split
    · rename_i n fault hcut
      exact .inr (.inr ⟨n, fault, hcut, rfl⟩)
    · exact .inl rfl

theorem clear_cases (w : Medium) (d : Disk) (p : Path) :
    w.clear d p = d.clear p ∨ ∃ failure e, w.clear d p = (.error failure, e) := by
  unfold clear
  split
  · exact .inr ⟨_, _, rfl⟩
  · exact .inl rfl

theorem makeDirectories_cases (w : Medium) (d : Disk) (p : Path) :
    w.makeDirectories d p =
        ((d.makeDirectories p).1.mapError (Failure.io p), (d.makeDirectories p).2) ∨
      ∃ failure e, w.makeDirectories d p = (.error failure, e) := by
  unfold makeDirectories
  split
  · exact .inr ⟨_, _, rfl⟩
  · exact .inl rfl

theorem copyContent_of_ok (h : w.copyContent d source target = (.ok count, e)) :
    d.copyContent source target = (.ok count, e) := by
  unfold copyContent at h
  split at h
  · cases h
  · rename_i count' f hcopy
    rw [Disk.copyContent, eq_ok_of_answer hcopy]
    rcases w.fill_cases target d f with hfill | ⟨fault, hfill⟩ | ⟨n, fault, -, hfill⟩
    · rwa [hfill] at h
    · rw [hfill] at h
      cases h
    · rw [hfill] at h
      cases h

theorem copyEach_of_ok {copyEntry copyEntry' : Text → Disk → Except Failure Nat × Disk}
    {names : List Text}
    (hentry : ∀ x d count e, copyEntry x d = (.ok count, e) → copyEntry' x d = (.ok count, e))
    (h : copyEach copyEntry names d = (.ok count, e)) :
    copyEach copyEntry' names d = (.ok count, e) := by
  induction names generalizing d count e with
  | nil => exact h
  | cons x names ih =>
    unfold copyEach at h ⊢
    split at h
    · cases h
    · rename_i first f hfirst
      rw [hentry x d first f hfirst]
      dsimp only at h ⊢
      rcases hrest : copyEach copyEntry names f with ⟨answer, g⟩
      rw [hrest] at h
      cases answer with
      | error failure => cases h
      | ok rest =>
        rw [ih hrest]
        exact h

theorem copyDirectory_of_ok (h : w.copyDirectory depth l source target d = (.ok count, e)) :
    Disk.copyDirectory names depth l source target d = (.ok count, e) := by
  induction depth generalizing l source target d count e with
  | zero => cases h
  | succ depth ih =>
    unfold copyDirectory at h
    unfold Disk.copyDirectory
    split at h
    · cases h
    rcases hmake : d.makeDirectories target with ⟨fault | ⟨⟩, f⟩
    · rw [hmake] at h
      cases h
    rw [hmake] at h
    rcases hlist : w.refuses .list source f with _ | fault <;> simp only [hlist] at h
    swap
    · cases h
    refine copyEach_of_ok (fun x d count e hentry => ?_) h
    dsimp only at hentry ⊢
    split at hentry
    · rename_i hdir
      rw [if_pos hdir]
      exact ih hentry
    · rename_i hdir
      rw [if_neg hdir]
      exact copyContent_of_ok hentry

theorem copy_of_ok (h : w.copy d source target = (.ok count, e)) :
    d.copy source target = (.ok count, e) := by
  unfold copy at h
  unfold Disk.copy copyListed
  split at h
  · cases h
  · rename_i l hfind
    rw [eq_ok_of_answer hfind]
    dsimp only
    split at h
    · cases h
    · rename_i hlink
      rw [if_neg hlink]
      exact copyDirectory_of_ok h
  · rename_i found hnot hfind
    rw [eq_ok_of_answer hfind]
    obtain ⟨l, node⟩ := found
    cases node with
    | directory => exact (hnot l rfl).elim
    | file content => exact copyContent_of_ok h
    | link => exact copyContent_of_ok h

theorem digest_of_ok (h : w.digest d p = .ok text) : d.digest p = .ok text := by
  unfold digest at h
  split at h
  · cases h
  · exact h

/-! ### Files that are cut off -/

theorem cutOff_of_writeBytes {content : Bytes} (h : d.writeBytes p content = .ok e) (n : Nat) :
    d.writeBytes p (content.take n) = .ok (e.cutOff p n) := by
  obtain ⟨l, hloc, hl, rfl, hdir, hlink⟩ := writeBytes_eq_ok h
  rw [writeBytes_of_create hloc hdir, cutOff, find_of_create hloc hl hdir hlink content]
  dsimp only
  rw [put_put]

/-- A text is written as a whole, or not at all, or its first bytes are. -/
theorem writeText_cases (w : Medium) (d : Disk) (p : Path) (text : Text) :
    (∃ e, w.writeText d p text = (.ok (), e) ∧ d.writeText p text = .ok e) ∨
    (∃ fault, w.writeText d p text = (.error fault, d)) ∨
    ∃ n fault e, w.cuts p d = some (n, fault) ∧ w.writeText d p text = (.error fault, e) ∧
      d.writeBytes p ((Bytes.ofText text).take n) = .ok e := by
  unfold writeText
  cases hwrite : d.writeText p text with
  | error fault => exact .inr (.inl ⟨fault, rfl⟩)
  | ok e =>
    rcases w.fill_cases p d e with hfill | ⟨fault, hfill⟩ | ⟨n, fault, hcut, hfill⟩
    · exact .inl ⟨e, hfill, rfl⟩
    · exact .inr (.inl ⟨fault, hfill⟩)
    · exact .inr (.inr ⟨n, fault, _, hcut, hfill, cutOff_of_writeBytes hwrite n⟩)

end Medium

end ModulePack
