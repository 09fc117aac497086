import ModulePack.Proofs.Build.Failing

/-!
# What a build can fail with

Requests that touch several things are refused with the fault that one of them has met. So a step
fails with such a fault or, if it asks for the manifest of the package, because that is none
(`fails_take`), but never because of the settings.
-/

namespace ModulePack

/-- The file system has refused something. -/
def Failure.IsIo (failure : Failure) : Prop := ∃ path fault, failure = .io path fault

/-! ### Requests -/

namespace Disk

variable {d : Disk} {failure : Failure}

theorem removeEntries_error {directory : Path} {names : List Text}
    (h : (removeEntries directory names d).1 = .error failure) : failure.IsIo := by
  induction names generalizing d with
  | nil => cases h
  | cons name names ih =>
    unfold removeEntries at h
    dsimp only at h
    split at h
    · exact ih h
    · cases h
      exact ⟨_, _, rfl⟩

theorem clear_error {p : Path} (h : (d.clear p).1 = .error failure) : failure.IsIo := by
  unfold clear at h
  split at h
  · exact removeEntries_error h
  · cases h
    exact ⟨_, _, rfl⟩
  · cases h
  · cases h
    exact ⟨_, _, rfl⟩

theorem copyContent_error {source target : Path}
    (h : (d.copyContent source target).1 = .error failure) : failure.IsIo := by
  unfold copyContent at h
  split at h
  · cases h
  · cases h
    exact ⟨_, _, rfl⟩

theorem copyEach_error {copyEntry : Text → Disk → Except Failure Nat × Disk} {names : List Text}
    (hentry : ∀ name d, (copyEntry name d).1 = .error failure → failure.IsIo)
    (h : (copyEach copyEntry names d).1 = .error failure) : failure.IsIo := by
  induction names generalizing d with
  | nil => cases h
  | cons name names ih =>
    unfold copyEach at h
    split at h
    · rename_i failure' e hcopy
      cases h
      exact hentry name d (by rw [hcopy])
    · rename_i count e hcopy
      dsimp only at h
      cases hrest : (copyEach copyEntry names e).1 with
      | ok copied =>
        rw [hrest] at h
        cases h
      | error failure' =>
        rw [hrest] at h
        cases h
        exact ih hrest

theorem copyDirectory_error {listing : Listing} {depth : Nat} {l : Location} {source target : Path}
    (h : (copyDirectory listing depth l source target d).1 = .error failure) : failure.IsIo := by
  induction depth generalizing l source target d with
  | zero =>
    cases h
    exact ⟨_, _, rfl⟩
  | succ depth ih =>
    unfold copyDirectory at h
    split at h
    · cases h
      exact ⟨_, _, rfl⟩
    · refine copyEach_error (fun name e hcopy => ?_) h
      dsimp only at hcopy
      split at hcopy
      · exact ih hcopy
      · exact copyContent_error hcopy

theorem copy_error {source target : Path} (h : (d.copy source target).1 = .error failure) :
    failure.IsIo := by
  unfold copy copyListed at h
  split at h
  · cases h
    exact ⟨_, _, rfl⟩
  · split at h
    · cases h
      exact ⟨_, _, rfl⟩
    · exact copyDirectory_error h
  · exact copyContent_error h

theorem treeBytes_error {root : Path} {entries : List Entry}
    (h : d.treeBytes root entries = .error failure) : failure.IsIo := by
  fun_induction treeBytes d root entries with
  | case1 => cases h
  | case2 _ _ ih => exact ih h
  | case3 p node rest hnode file content hread ih =>
    cases hrest : d.treeBytes root rest with
    | ok bytes =>
      rw [hrest] at h
      cases h
    | error failure' =>
      rw [hrest] at h
      cases h
      exact ih hrest
  | case4 =>
    cases h
    exact ⟨_, _, rfl⟩

theorem digest_error {p : Path} (h : d.digest p = .error failure) : failure.IsIo := by
  have hbytes : d.digestBytes p = .error failure := by
    unfold digest at h
    cases hdigest : d.digestBytes p with
    | ok bytes =>
      rw [hdigest] at h
      cases h
    | error failure' =>
      rw [hdigest] at h
      cases h
      rfl
  unfold digestBytes at hbytes
  split at hbytes
  · cases hbytes
    exact ⟨_, _, rfl⟩
  · split at hbytes
    · cases hbytes
      exact ⟨_, _, rfl⟩
    · exact treeBytes_error hbytes
  · cases hbytes
  · cases hbytes
    exact ⟨_, _, rfl⟩

end Disk

/-! ### Steps -/

namespace Action

open Disk

variable {s : Settings}

theorem io_ask {α : Type} {path : Path} {answer : Except Fault α} :
    Fails (fun _ => True) (ask path answer) fun failure _ => failure.IsIo :=
  Fails.ask.mono fun _ _ ⟨_, fault, hfailure, _⟩ => ⟨path, fault, hfailure⟩

theorem io_writeArtifact (directory : Path) (x content : Text) :
    Fails (fun _ => True) (writeArtifact directory x content) fun failure _ => failure.IsIo :=
  .bind_any fails_disk fun _ => .bind_never io_ask fun _ _ => ⟨_, _, rfl⟩

theorem io_clean : Fails (fun _ => True) (clean s) fun failure _ => failure.IsIo :=
  .bind_any (fails_log _ _) fun _ => .bind_any fails_disk fun _ =>
    .bind_any (fails_setDisk _) fun _ =>
      Fails.ofExcept.mono fun _ _ ⟨_, herror⟩ => clear_error herror

theorem io_prepare : Fails (fun _ => True) (prepare s) fun failure _ => failure.IsIo :=
  .bind_any fails_disk fun _ => .bind_any (fails_setDisk _) fun _ => io_ask

theorem io_wrapSource (x : Text) :
    Fails (fun _ => True) (wrapSource s x) fun failure _ => failure.IsIo := by
  refine .bind_any (fails_log _ _) fun _ => .bind_any fails_disk fun d => ?_
  refine .bind_any io_ask fun source => ?_
  rcases Wrapped.split source with ⟨header, body⟩
  refine .bind_any (fails_log _ _) fun _ => .bind_any (fails_record _) fun _ => ?_
  exact .bind_never (io_writeArtifact _ _ _) fun _ _ => ⟨_, _, rfl⟩

theorem io_wrapSources (names : List Text) :
    Fails (fun _ => True) (forAll (wrapSource s) names) fun failure _ => failure.IsIo := by
  induction names with
  | nil => exact .never fun _ => ⟨_, _, rfl⟩
  | cons x names ih => exact .bind_any (io_wrapSource x) fun _ => ih

theorem io_transpile : Fails (fun _ => True) (transpile s) fun failure _ => failure.IsIo := by
  refine .bind_any (fails_log _ _) fun _ => .bind_any fails_disk fun d => ?_
  refine .bind_any io_ask fun listing => ?_
  exact .bind_never (io_wrapSources _) fun _ _ => ⟨_, _, rfl⟩

theorem io_copyOptional (x : Text) :
    Fails (fun _ => True) (copyOptional s x) fun failure _ => failure.IsIo := by
  refine .bind_any (fails_log _ _) fun _ => .bind_any fails_disk fun d => ?_
  split
  · refine .bind_any fails_disk fun d => .bind_any (fails_setDisk _) fun _ => ?_
    refine .bind_any (Fails.ofExcept.mono fun _ _ ⟨_, herror⟩ => copy_error herror) ?_
    refine fun size => .bind_any fails_disk fun e => .bind_never ?_ fun _ _ => ⟨_, _, rfl⟩
    exact Fails.ofExcept.mono fun _ _ ⟨_, herror⟩ => digest_error herror
  · exact fails_log _ _

end Action

open ModulePack.Action

/-- Whether a step asks for the manifest of the package. -/
def Step.readsManifest : Step → Bool
  | .generateEntry | .generateManifest => true
  | _ => false

/-- What a step can fail with. -/
inductive CanFail (s : Settings) (step : Step) : Failure → Prop
  | io {failure : Failure} (h : failure.IsIo) : CanFail s step failure
  | malformed (h : step.readsManifest = true) :
      CanFail s step (.manifestSyntax (Path.append s.packagePath Manifest.fileName))
  | noObject (h : step.readsManifest = true) :
      CanFail s step (.manifestShape (Path.append s.packagePath Manifest.fileName))

variable {s : Settings} {step : Step} {failure : Failure}

theorem CanFail.not_isConfiguration (h : CanFail s step failure) :
    failure.isConfiguration = false := by
  cases h with
  | io h =>
    obtain ⟨path, fault, rfl⟩ := h
    rfl
  | malformed => rfl
  | noObject => rfl

theorem CanFail.isIo_or_readsManifest (h : CanFail s step failure) :
    failure.IsIo ∨ step.readsManifest = true := by
  cases h with
  | io h => exact .inl h
  | malformed h => exact .inr h
  | noObject h => exact .inr h

theorem canFail_manifest (h : step.readsManifest = true) :
    Fails (fun _ => True) (manifest s) fun failure _ => CanFail s step failure := by
  intro p _ failure q herror
  obtain ⟨-, hunusable⟩ := fails_readManifest p ⟨rfl, rfl⟩ failure q herror
  cases hunusable with
  | unread => exact .io ⟨_, _, rfl⟩
  | malformed => exact .malformed h
  | noObject => exact .noObject h

/-- Settings that have been accepted are never to blame for what fails later. -/
theorem fails_take (step : Step) :
    Fails (fun _ => True) (take s step) fun failure _ => CanFail s step failure := by
  cases step with
  | clean => exact io_clean.mono fun _ _ => .io
  | prepare => exact io_prepare.mono fun _ _ => .io
  | transpile => exact io_transpile.mono fun _ _ => .io
  | generateEntry =>
    refine .bind_any (fails_log _ _) fun _ => .bind_any fails_get fun q => ?_
    refine .bind_any (canFail_manifest rfl) fun m => .bind_any fails_get fun q => ?_
    exact .bind_never ((io_writeArtifact _ _ _).mono fun _ _ => .io) fun _ _ => ⟨_, _, rfl⟩
  | generateManifest =>
    refine .bind_any (fails_log _ _) fun _ => ?_
    refine .bind_any (canFail_manifest rfl) fun m => .bind_any (fails_modify _) ?_
    exact fun _ => (io_writeArtifact _ _ _).mono fun _ _ => .io
  | copyReadme => exact (io_copyOptional _).mono fun _ _ => .io
  | copyLicense => exact (io_copyOptional _).mono fun _ _ => .io

end ModulePack
