import ModulePack.Proofs.Build.Actions

/-!
# How the actions of a build fail

`Fails pre action failed`: from a progress with `pre`, the action fails only as `failed` says, which
knows the failure and what there is by then. The manifest of the package is refused for a reason that
the disk gives (`Unusable`).
-/

namespace ModulePack

/-- If a part of a build fails, it fails as `failed` says. -/
def Fails {α : Type} (pre : Progress → Prop) (action : Action α)
    (failed : Failure → Progress → Prop) : Prop :=
  ∀ p, pre p → ∀ failure q, action p = .error failure q → failed failure q

namespace Fails

variable {α β : Type} {pre : Progress → Prop} {failed failed' : Failure → Progress → Prop}
  {post : α → Progress → Prop} {action : Action α}

theorem mono (h : Fails pre action failed)
    (hfailed : ∀ failure q, failed failure q → failed' failure q) : Fails pre action failed' :=
  fun p hp failure q herror => hfailed failure q (h p hp failure q herror)

theorem bind {next : α → Action β} (hok : Spec pre action post fun _ => True)
    (h : Fails pre action failed) (h' : ∀ a, Fails (post a) (next a) failed) :
    Fails pre (action >>= next) failed := by
  intro p hp failure q herror
  have hfirst := hok p hp
  split at hfirst
  · rename_i a p' heq
    rw [Action.bind_of_ok heq] at herror
    exact h' a p' hfirst failure q herror
  · rename_i failure' p' heq
    rw [Action.bind_of_error heq] at herror
    obtain ⟨rfl, rfl⟩ : failure' = failure ∧ p' = q := by simpa using herror
    exact h p hp _ _ heq

theorem never (h : ∀ p, ∃ a q, action p = .ok a q) : Fails pre action failed := by
  intro p _ failure q herror
  obtain ⟨a, q', hok⟩ := h p
  rw [hok] at herror
  cases herror

theorem bind_never {next : α → Action β} (h : Fails pre action failed)
    (h' : ∀ a p, ∃ b q, next a p = .ok b q) : Fails pre (action >>= next) failed := by
  intro p hp failure q herror
  cases heq : action p with
  | ok a p' =>
    obtain ⟨b, q', hok⟩ := h' a p'
    rw [Action.bind_of_ok heq, hok] at herror
    cases herror
  | error failure' p' =>
    rw [Action.bind_of_error heq] at herror
    obtain ⟨rfl, rfl⟩ : failure' = failure ∧ p' = q := by simpa using herror
    exact h p hp _ _ heq

theorem ask {path : Path} {answer : Except Fault α} : Fails pre (Action.ask path answer)
    (fun failure q => pre q ∧ ∃ fault, failure = .io path fault ∧ answer = .error fault) := by
  intro p hp failure q herror
  cases answer with
  | ok a => cases herror
  | error fault =>
    replace herror : EStateM.Result.error (Failure.io path fault) p = .error failure q := herror
    obtain ⟨rfl, rfl⟩ : Failure.io path fault = failure ∧ p = q := by simpa using herror
    exact ⟨hp, fault, rfl, rfl⟩

theorem ofExcept {answer : Except Failure α} : Fails pre (Action.ofExcept answer)
    (fun failure q => pre q ∧ answer = .error failure) := by
  intro p hp failure q herror
  cases answer with
  | ok a => cases herror
  | error failure' =>
    replace herror : EStateM.Result.error failure' p = .error failure q := herror
    obtain ⟨rfl, rfl⟩ : failure' = failure ∧ p = q := by simpa using herror
    exact ⟨hp, rfl⟩

/-- Where the failure alone is of interest, nothing need be known of what has gone before. -/
theorem bind_any {next : α → Action β} (h : Fails (fun _ => True) action failed)
    (h' : ∀ a, Fails (fun _ => True) (next a) failed) :
    Fails (fun _ => True) (action >>= next) failed :=
  .bind (fun _ _ => by split <;> trivial) h h'

theorem of_fact {fact : Prop} (h : fact → Fails pre action failed) :
    Fails (fun p => pre p ∧ fact) action failed := fun p hp => h hp.2 p hp.1

theorem of_exists {ι : Type} {pre : ι → Progress → Prop}
    (h : ∀ i, Fails (pre i) action failed) : Fails (fun p => ∃ i, pre i p) action failed :=
  fun p ⟨i, hp⟩ => h i p hp

end Fails

namespace Action

open Disk

variable {s : Settings} {F : Disk} {out : Location} {files : List (Text × Text)} {r : Records}
  {failed : Failure → Progress → Prop} {pre : Progress → Prop}

/-! ### Actions that do not fail -/

theorem fails_log (level : Level) (text : Text) : Fails pre (log level text) failed :=
  .never fun _ => ⟨_, _, rfl⟩

theorem fails_record (change : Records → Records) : Fails pre (record change) failed :=
  .never fun _ => ⟨_, _, rfl⟩

theorem fails_modify (change : Progress → Progress) :
    Fails pre (modify change : Action Unit) failed := .never fun _ => ⟨_, _, rfl⟩

theorem fails_get : Fails pre (get : Action Progress) failed := .never fun _ => ⟨_, _, rfl⟩

theorem fails_disk : Fails pre disk failed := .never fun _ => ⟨_, _, rfl⟩

theorem fails_setDisk (d : Disk) : Fails pre (setDisk d) failed := .never fun _ => ⟨_, _, rfl⟩

/-! ### The manifest -/

/-- No manifest can be read from a path. -/
inductive Unusable (d : Disk) (path : Path) : Failure → Prop
  | unread {fault : Fault} (h : d.readText path = .error fault) : Unusable d path (.io path fault)
  | malformed {text : Text} (h : d.readText path = .ok text) (hparse : Json.parse? text = none) :
      Unusable d path (.manifestSyntax path)
  | noObject {text : Text} {value : Json} (h : d.readText path = .ok text)
      (hparse : Json.parse? text = some value) (hvalue : ∀ fields, value ≠ .object fields) :
      Unusable d path (.manifestShape path)

theorem unusable_of_parse {d : Disk} {path : Path} {text : Text} {failure : Failure}
    (h : d.readText path = .ok text) (hparse : Manifest.parse path text = .error failure) :
    Unusable d path failure := by
  unfold Manifest.parse at hparse
  split at hparse
  · rename_i hnone
    cases hparse
    exact .malformed h hnone
  · cases hparse
  · rename_i value hnot hsome
    cases hparse
    exact .noObject h hsome hnot

theorem fails_readManifest {d : Disk} :
    Fails (At d r) (manifest s) (fun failure q => At d r q ∧
      Unusable d (Path.append s.packagePath Manifest.fileName) failure) := by
  have hget : Spec (At d r) get (fun _ => At d r) fun _ => True := fun _ h => h
  refine .bind hget fails_get fun q => ?_
  split
  · exact .never fun _ => ⟨_, _, rfl⟩
  · refine .bind (at_log _ _) (fails_log _ _) fun _ => ?_
    refine .bind at_disk fails_disk fun e => .of_fact fun he => ?_
    rw [he]
    refine .bind (.ask fun _ _ => trivial) (Fails.ask.mono ?_) fun text => .of_fact fun htext => ?_
    · rintro _ q ⟨hq, fault, rfl, hfault⟩
      exact ⟨hq, .unread hfault⟩
    · refine .bind_never (Fails.ofExcept.mono ?_) fun _ _ => ⟨_, _, rfl⟩
      rintro failure q ⟨hq, hparse⟩
      exact ⟨hq, unusable_of_parse htext hparse⟩

theorem fails_manifest :
    Fails (Stage s F out files r) (manifest s) (fun failure _ =>
      Unusable (F.putFiles out files) (Path.append s.packagePath Manifest.fileName) failure) :=
  fun p h failure q herror => (fails_readManifest p ⟨h.disk, h.records⟩ failure q herror).2

end Action

end ModulePack
