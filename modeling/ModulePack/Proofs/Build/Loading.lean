import ModulePack.Proofs.Build.States
import ModulePack.Proofs.Build.Steps

/-!
# How often the manifest is read

Each reading of the manifest is logged. Most actions are `Quiet`; those that ask for the manifest
read it unless it is known (`ReadsOnce`). So a build reads it once if it comes to the entry, and
never if it does not (`count_loading`).
-/

namespace ModulePack

open Disk ModulePack.Action

variable {s : Settings} {d : Disk} {b : Builder} {p q : Progress} {path : Path}

/-! ### Actions -/

/-- What is logged whenever the manifest is read. -/
def loading (s : Settings) : LogLine :=
  ⟨.debug, "Loading manifest ".toList ++ Path.append s.packagePath Manifest.fileName⟩

/-- The manifest has been read `n` times, and is known if that is any. -/
structure Loads (s : Settings) (n : Nat) (p : Progress) : Prop where
  count : p.log.count (loading s) = n
  manifest : p.records.manifest = none ↔ n = 0

/-- The action does not read the manifest. -/
def Quiet {α : Type} (s : Settings) (action : Action α) : Prop :=
  ∀ n, Spec (Loads s n) action (fun _ => Loads s n) (Loads s n)

namespace Quiet

variable {α β : Type} {action : Action α}

theorem bind {next : α → Action β} (h : Quiet s action) (h' : ∀ a, Quiet s (next a)) :
    Quiet s (action >>= next) := fun n => .bind (h n) fun a => h' a n

theorem logAll {more : Log} (h : loading s ∉ more) :
    Quiet s (modify fun p => { p with log := p.log ++ more }) := fun n =>
  .modify fun p hp => ⟨by rw [List.count_append, hp.count, List.count_eq_zero.2 h, Nat.add_zero],
    hp.manifest⟩

theorem log {level : Level} {text : Text} (h : ⟨level, text⟩ ≠ loading s) :
    Quiet s (Action.log level text) := logAll (by simpa using h.symm)

theorem record {change : Records → Records} (h : ∀ r, (change r).manifest = r.manifest) :
    Quiet s (Action.record change) := fun n =>
  .modify fun p hp => ⟨hp.count, by rw [h]; exact hp.manifest⟩

theorem get : Quiet s (get : Action Progress) := fun _ _ hp => hp

theorem disk : Quiet s Action.disk := fun _ _ hp => hp

theorem setDisk (d : Disk) : Quiet s (Action.setDisk d) := fun _ =>
  .modify fun _ hp => ⟨hp.count, hp.manifest⟩

theorem ask {answer : Except Fault α} : Quiet s (Action.ask path answer) := fun _ =>
  (Spec.ask fun _ hp => hp).mono fun _ _ h => h.1

theorem ofExcept {answer : Except Failure α} : Quiet s (Action.ofExcept answer) := fun _ =>
  (Spec.ofExcept fun _ hp => hp).mono fun _ _ h => h.1

theorem writeArtifact (directory : Path) (x content : Text) :
    Quiet s (Action.writeArtifact directory x content) :=
  bind disk fun _ => bind ask fun _ => bind (setDisk _) fun _ => record fun _ => rfl

theorem clean : Quiet s (Action.clean s) :=
  bind (log (by simp [loading])) fun _ => bind disk fun _ => bind (setDisk _) fun _ => ofExcept

theorem prepare : Quiet s (Action.prepare s) :=
  bind disk fun _ => bind (setDisk _) fun _ => ask

theorem wrapSource (x : Text) : Quiet s (Action.wrapSource s x) := by
  refine bind (log (by simp [loading])) fun _ => bind disk fun d => bind ask fun source => ?_
  rcases Wrapped.split source with ⟨header, body⟩
  have hline (rest : Text) : LogLine.mk .debug ("Wrapping ".toList ++ rest) ≠ loading s := by
    simp [loading]
  refine bind (log ?_) fun _ => bind (record fun _ => rfl) fun _ => ?_
  · rw [List.append_assoc, List.append_assoc]
    exact hline _
  exact bind (writeArtifact _ _ _) fun _ => record fun _ => rfl

theorem wrapSources (names : List Text) : Quiet s (forAll (Action.wrapSource s) names) := by
  induction names with
  | nil => exact fun _ _ hp => hp
  | cons x names ih => exact bind (wrapSource x) fun _ => ih

theorem transpile : Quiet s (Action.transpile s) := by
  refine bind (log (by simp [loading])) fun _ => bind disk fun d => bind ask fun listing => ?_
  refine bind (wrapSources _) fun _ => bind (record fun _ => rfl) fun _ => ?_
  exact log (by simp [loading])

theorem copyOptional (x : Text) : Quiet s (Action.copyOptional s x) := by
  refine bind (log (by simp [loading])) fun _ => bind disk fun d => ?_
  split
  · refine bind disk fun d => bind (setDisk _) fun _ => bind ofExcept fun size => ?_
    exact bind disk fun e => bind ofExcept fun digest => record fun _ => rfl
  · exact log (by simp [loading])

end Quiet

/-- The manifest has been read once, be it in vain. -/
def HasRead (s : Settings) (p : Progress) : Prop := p.log.count (loading s) = 1

/-- The action reads the manifest if that has not been done before. -/
def ReadsOnce {α : Type} (s : Settings) (action : Action α) : Prop :=
  Spec (fun p => Loads s 0 p ∨ Loads s 1 p) action (fun _ => Loads s 1) (HasRead s)

theorem loading_not_mem_warnings (manifest : Manifest) : loading s ∉ manifest.warnings := by
  unfold Manifest.warnings
  split
  · split
    · simp
    · simp [loading]
  · simp

theorem loading_not_mem_rebaseLog (source target : Path) (fields : Json.Fields) :
    loading s ∉ Dependencies.rebaseLog source target fields := by
  intro hmem
  obtain ⟨⟨key, spec⟩, -, hline⟩ := List.mem_filterMap.1 hmem
  obtain ⟨path, -, hline⟩ := Option.map_eq_some_iff.1 hline
  simp [loading] at hline

namespace ReadsOnce

variable {α β : Type} {action : Action α}

theorem log_bind {level : Level} {text : Text} {next : Action β}
    (hline : ⟨level, text⟩ ≠ loading s) (h : ReadsOnce s next) :
    ReadsOnce s (Action.log level text >>= fun _ => next) := by
  refine .bind (fun p hp => ?_) fun _ => h
  exact hp.imp (Quiet.log hline 0 p) (Quiet.log hline 1 p)

theorem get_bind {next : Progress → Action β}
    (h : ∀ q, Spec (fun p => (Loads s 0 p ∨ Loads s 1 p) ∧ p = q) (next q) (fun _ => Loads s 1)
      (HasRead s)) : ReadsOnce s (get >>= next) := by
  have hget : Spec (fun p => Loads s 0 p ∨ Loads s 1 p) get
      (fun q p => (Loads s 0 p ∨ Loads s 1 p) ∧ p = q) (HasRead s) := fun p hp => ⟨hp, rfl⟩
  exact .bind hget h

theorem bind_quiet {next : α → Action β} (h : ReadsOnce s action) (h' : ∀ a, Quiet s (next a)) :
    ReadsOnce s (action >>= next) :=
  .bind h fun a => (h' a 1).mono_failed fun _ hp => hp.count

theorem manifest : ReadsOnce s (Action.manifest s) := by
  refine get_bind fun q => ?_
  split
  · rename_i m hm
    rintro p ⟨hp, rfl⟩
    refine hp.resolve_left fun h => ?_
    rw [h.manifest.2 rfl] at hm
    cases hm
  · rename_i hm
    have hlog : Spec (fun p => (Loads s 0 p ∨ Loads s 1 p) ∧ p = q)
        (log .debug ("Loading manifest ".toList ++ Path.append s.packagePath Manifest.fileName))
        (fun _ => HasRead s) (HasRead s) := by
      refine .modify fun p ⟨hp, hq⟩ => ?_
      have hzero := hp.resolve_right fun h => absurd (h.manifest.1 (hq ▸ hm)) (by decide)
      rw [HasRead, List.count_append, hzero.count]
      simp [loading]
    have hdisk : Spec (HasRead s) disk (fun _ => HasRead s) (HasRead s) := fun _ hp => hp
    refine .bind hlog fun _ => .bind hdisk fun d => ?_
    refine .bind (.ask fun _ hp => hp) fun text => .of_fact fun _ => ?_
    refine .bind (.ofExcept fun _ hp => hp) fun m => .of_fact fun _ => ?_
    have hwarnings : Spec (HasRead s) (modify fun p => { p with log := p.log ++ m.warnings })
        (fun _ => HasRead s) (HasRead s) := .modify fun p hp => by
      rw [HasRead, List.count_append, List.count_eq_zero.2 (loading_not_mem_warnings m)]
      exact hp
    have hrecord : Spec (HasRead s) (record fun r => { r with manifest := some m })
        (fun _ => Loads s 1) (HasRead s) := .modify fun p hp => ⟨hp, by simp⟩
    exact .bind hwarnings fun _ => .bind hrecord fun _ => .pure fun _ hp => hp

theorem generateEntry : ReadsOnce s (Action.generateEntry s) := by
  refine log_bind (by simp [loading]) (get_bind fun q p hp => ?_)
  refine bind_quiet manifest (fun m => ?_) p hp.1
  exact .bind .get fun _ => .bind (.writeArtifact _ _ _) fun _ => .record fun _ => rfl

theorem generateManifest : ReadsOnce s (Action.generateManifest s) := by
  refine log_bind (by simp [loading]) (bind_quiet manifest fun m => .bind (.logAll ?_) fun _ => ?_)
  · cases m.dependencies? with
    | none => simp
    | some fields => exact loading_not_mem_rebaseLog _ _ _
  · exact .writeArtifact _ _ _

end ReadsOnce

/-! ### Builds -/

theorem ends_quiet {n : Nat} {steps : List Step} (h : ∀ step ∈ steps, Quiet s (take s step)) :
    ∀ p, Loads s n p → Ends (Loads s n) (Loads s n) (takeSteps s steps p) := by
  induction steps with
  | nil => exact fun _ hp => hp
  | cons step steps ih =>
    exact ends_cons (h step (by simp) n) (ih fun other hother => h other (by simp [hother]))

/-- A build that comes to the entry has read the manifest once in the end. -/
theorem ends_readsOnce (hp : Loads s 0 p) : Ends (HasRead s) (HasRead s)
    (takeSteps s [.generateEntry, .generateManifest, .copyReadme, .copyLicense] p) := by
  have hentry : Spec _ (take s .generateEntry) (fun _ => Loads s 1) (HasRead s) :=
    ReadsOnce.generateEntry
  have hmanifest : Spec _ (take s .generateManifest) (fun _ => Loads s 1) (HasRead s) :=
    ReadsOnce.generateManifest
  have hcopies : ∀ step ∈ [Step.copyReadme, .copyLicense], Quiet s (take s step) := by
    simp only [List.mem_cons, List.not_mem_nil, or_false]
    rintro _ (rfl | rfl)
    · exact .copyOptional _
    · exact .copyOptional _
  refine ends_cons hentry (fun q hq => ?_) p (.inl hp)
  refine ends_cons hmanifest (fun q hq => ?_) q (.inr hq)
  exact (ends_quiet hcopies q hq).mono (fun _ h => h.count) fun _ h => h.count

theorem loads_start (s : Settings) (d : Disk) : Loads s 0 (start s d) := by
  have hnot : loading s ∉ announcement s := by
    simp only [announcement, loading, List.mem_cons, LogLine.mk.injEq, reduceCtorEq, false_and,
      List.not_mem_nil, or_self, not_false_eq_true]
  exact ⟨List.count_eq_zero.2 hnot, by simp [start, Records.empty]⟩

theorem takeSteps_append_of_error {before : List Step} {end_ : Step × Failure}
    (h : takeSteps s before p = (some end_, q)) (after : List Step) :
    takeSteps s (before ++ after) p = (some end_, q) := by
  obtain ⟨step, failure⟩ := end_
  obtain ⟨first, rest, p', rfl, hfirst, herror⟩ := takeSteps_eq_some_iff.1 h
  exact takeSteps_eq_some_iff.2 ⟨first, rest ++ after, p', by simp, hfirst, herror⟩

theorem count_log_build (hv : b.settings.validate = .ok ()) :
    (b.build d).log.count (loading b.settings) =
      (takeSteps b.settings Step.all (start b.settings d)).2.log.count (loading b.settings) := by
  rw [Builder.build, hv, start]
  dsimp only
  split
  · rename_i heq
    simp [heq, loading]
  · rename_i heq
    simp [heq, loading]

/-- The manifest is read once in builds that come to the entry, and in no others. -/
theorem count_loading (b : Builder) (d : Disk) :
    (b.build d).log.count (loading b.settings) ≤ 1 ∧
      ((b.build d).log.count (loading b.settings) = 1 ↔ b.settings.validate = .ok () ∧
        ∃ p, Succeeds b.settings Step.generateEntry.before (start b.settings d) p) := by
  cases hv : b.settings.validate with
  | error failure =>
    have hcount : (b.build d).log.count (loading b.settings) = 0 := by
      have hnot (text : Text) : loading b.settings ∉ [LogLine.mk .error text] := by simp [loading]
      rw [Builder.build, hv]
      exact List.count_eq_zero.2 (hnot _)
    simp [hcount]
  | ok u =>
    have hall : Step.all = Step.generateEntry.before ++
        [.generateEntry, .generateManifest, .copyReadme, .copyLicense] := rfl
    have hquiet : ∀ step ∈ Step.generateEntry.before, Quiet b.settings (take b.settings step) := by
      intro step hstep
      change step ∈ [Step.clean, .prepare, .transpile] at hstep
      simp only [List.mem_cons, List.not_mem_nil, or_false] at hstep
      rcases hstep with rfl | rfl | rfl
      · exact .clean
      · exact .prepare
      · exact .transpile
    -- whether the build comes to the entry is settled by the steps before
    have hbefore := ends_quiet hquiet _ (loads_start b.settings d)
    rw [count_log_build hv, hall]
    rcases hsteps : takeSteps b.settings Step.generateEntry.before (start b.settings d) with
      ⟨_ | end_, p⟩
    · have hsucceeds := takeSteps_eq_none_iff.1 hsteps
      rw [hsteps] at hbefore
      have hcount : _ = 1 := (ends_readsOnce hbefore).snd
      rw [hsucceeds.takeSteps_append]
      exact ⟨Nat.le_of_eq hcount, iff_of_true hcount ⟨rfl, p, hsucceeds⟩⟩
    · rw [hsteps] at hbefore
      rw [takeSteps_append_of_error hsteps]
      have hcount : p.log.count (loading b.settings) = 0 := hbefore.count
      refine ⟨by simp [hcount], iff_of_false (by simp [hcount]) ?_⟩
      rintro ⟨-, q, hsucceeds⟩
      rw [takeSteps_eq_none_iff.2 hsucceeds] at hsteps
      cases hsteps

end ModulePack
