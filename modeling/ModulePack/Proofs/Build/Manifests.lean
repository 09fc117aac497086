import ModulePack.Proofs.Build.Loading

/-!
# The manifest of a package in its build

The manifest is read once, when the entry is generated, and what is wrong with it is reported there.
By the time the manifest of the output is written, nothing can fail any more: the manifest of the
package is known, and no script has taken the name of the file (`build_manifest`).
-/

namespace ModulePack

open Disk ModulePack.Action

variable {s : Settings} {d F : Disk} {m : Nat} {out : Location} {b : Builder} {p q : Progress}
  {r : Records} {files : List (Text × Text)} {failure : Failure} {x : Text} {path : Path}

/-! ### How far a build has come -/

theorem stage_generateEntry (hs : s.outputPath ≠ []) (hd : d.WellFormed)
    (h : Succeeds s Step.generateEntry.before (start s d) p) :
    ∃ m out sources, Prepares s d ∧ Ready s (prepared s d) m out ∧
      Stage s (prepared s d) out (sources.map script)
        { wrappedRecords s sources with names := sources.map Prod.fst } p := by
  change Succeeds s [.clean, .prepare, .transpile] (start s d) p at h
  simp only [succeeds_cons_iff, succeeds_nil_iff] at h
  obtain ⟨p₁, hclean, p₂, hprepare, p₃, htranspile, rfl⟩ := h
  obtain ⟨h₁, hcleared⟩ := spec_clean.of_ok ⟨rfl, rfl⟩ hclean
  obtain ⟨h₂, hmade⟩ := spec_prepare.of_ok h₁ hprepare
  have hprep : Prepares s d := ⟨hcleared, hmade⟩
  obtain ⟨m, out, hF⟩ := ready_prepared hs hd hprep
  have hstage : Stage s (prepared s d) out [] .empty p₂ := ⟨h₂.disk, h₂.records, by simp⟩
  obtain ⟨sources, h₃, -⟩ := (spec_transpile hF).of_ok hstage htranspile
  exact ⟨m, out, sources, hprep, hF, h₃⟩

/-- The manifest that the entry has been generated from is the one that is remembered. -/
theorem stage_generateManifest (hs : s.outputPath ≠ []) (hd : d.WellFormed)
    (h : Succeeds s Step.generateManifest.before (start s d) p) :
    ∃ m out, ∃ plan : Plan, ∃ entry, Prepares s d ∧ Ready s (prepared s d) m out ∧
      Stage s (prepared s d) out (plan.scripts ++ [plan.entry])
        (plan.records ((plan.scripts ++ [plan.entry]).map (textArtifact s.outputPath))) p ∧
      Succeeds s Step.generateEntry.before (start s d) entry ∧
      ∃ text, entry.disk.readText (Path.append s.packagePath Manifest.fileName) = .ok text ∧
        Manifest.parse (Path.append s.packagePath Manifest.fileName) text = .ok plan.manifest := by
  change Succeeds s [.clean, .prepare, .transpile, .generateEntry] (start s d) p at h
  simp only [succeeds_cons_iff, succeeds_nil_iff] at h
  obtain ⟨p₁, hclean, p₂, hprepare, p₃, htranspile, p₄, hentry, rfl⟩ := h
  have hbefore : Succeeds s Step.generateEntry.before (start s d) p₃ :=
    .cons hclean (.cons hprepare (.cons htranspile .nil))
  obtain ⟨m, out, sources, hprep, hF, hstage⟩ := stage_generateEntry hs hd hbefore
  obtain ⟨manifest, hstage', text, htext, hparse⟩ := (spec_generateEntry hF).of_ok hstage hentry
  rw [← hstage.disk] at htext
  exact ⟨m, out, ⟨sources, manifest⟩, p₃, hprep, hF, hstage', hbefore, text, htext, hparse⟩

/-! ### Writing to the output -/

theorem allowed_output (hs : s.outputPath ≠ []) (hd : d.WellFormed) (hprep : Prepares s d) :
    Allowed s.outputPath := allowed_of_makeDirectories (clear_frame hd _).2.1 _ hs hprep.2

/-- The path of the entry is shorter than the one of the manifest. -/
theorem allowed_entry (h : Allowed s.outputPath)
    (hshort : (Path.append s.outputPath Manifest.fileName).byteCount ≤ maxPath) :
    Allowed (Path.append s.outputPath Entry.fileName) := by
  refine allowed_append h isFileName_entry (Nat.le_trans ?_ hshort)
  obtain ⟨q, hq⟩ := Path.exists_append_eq s.outputPath
  have hle : Entry.fileName.byteCount ≤ Manifest.fileName.byteCount := by decide
  rw [hq _ isFileName_entry.no_slash, hq _ isFileName_manifest.no_slash, Text.byteCount_append,
    Text.byteCount_append]
  omega

theorem Action.Stage.not_fails_writeArtifact (hF : Ready s F m out) (hx : IsFileName x)
    (ha : Allowed (Path.append s.outputPath x)) (content : Text) :
    Fails (Stage s F out files r) (writeArtifact s.outputPath x content) fun _ _ => False := by
  intro p h
  have hle := (h.adds hF).le
  rw [h.disk] at hle
  have hwrite := writeText_of_reaches (hF.reaches.mono (.of_le hle)) hx ha
    (fun target hlink => by obtain ⟨_, hnode⟩ := hF.file_of_get? hlink; cases hnode)
    (fun hdir => by obtain ⟨_, hnode⟩ := hF.file_of_get? hdir; cases hnode) content
  refine Fails.bind spec_disk fails_disk (fun d => .of_fact fun hd => ?_) p h
  rw [hd, hwrite]
  refine .bind_never (Fails.ask.mono fun _ _ hfails => ?_) fun _ _ => ⟨_, _, rfl⟩
  obtain ⟨_, _, _, herror⟩ := hfails
  cases herror

theorem not_fails_generateManifest (hF : Ready s F m out) {manifest : Manifest}
    (hr : r.manifest = some manifest) (ha : Allowed (Path.append s.outputPath Manifest.fileName)) :
    Fails (Stage s F out files r) (generateManifest s) fun _ _ => False := by
  have hknown : Fails (Stage s F out files r) (Action.manifest s) fun _ _ => False := by
    refine .bind spec_get fails_get fun q => .of_fact fun hq => ?_
    rw [hq, hr]
    exact .never fun _ => ⟨_, _, rfl⟩
  refine .bind (spec_log _ _) (fails_log _ _) fun _ => ?_
  refine .bind (spec_manifest_some hr) hknown fun m => .of_fact fun _ => ?_
  refine .bind (spec_logAll _) (fails_modify _) fun _ => ?_
  exact Stage.not_fails_writeArtifact hF isFileName_manifest ha _

/-! ### Manifests that are none -/

theorem Action.Unusable.parse_eq (h : Unusable d path failure) {text : Text}
    (htext : d.readText path = .ok text) : Manifest.parse path text = .error failure := by
  cases h with
  | unread h =>
    rw [htext] at h
    cases h
  | malformed h hparse =>
    rw [htext] at h
    cases h
    rw [Manifest.parse, hparse]
  | @noObject text' value h hparse hvalue =>
    rw [htext] at h
    cases h
    rw [Manifest.parse, hparse]
    cases value with
    | object fields => exact absurd rfl (hvalue fields)
    | _ => rfl

theorem Action.Unusable.unique {failure' : Failure} (h : Unusable d path failure)
    (h' : Unusable d path failure') : failure = failure' := by
  cases hread : d.readText path with
  | error fault =>
    have hio : ∀ {other}, Unusable d path other → other = .io path fault := by
      intro other hother
      cases hother with
      | unread h =>
        rw [hread] at h
        cases h
        rfl
      | malformed h | noObject h =>
        rw [hread] at h
        cases h
    rw [hio h, hio h']
  | ok text =>
    have hparse := h.parse_eq hread
    rw [h'.parse_eq hread] at hparse
    exact (Except.error.inj hparse).symm

theorem fails_generateEntry_unusable (hF : Ready s F m out) (hr : r.manifest = none)
    (ha : Allowed (Path.append s.outputPath Entry.fileName)) :
    Fails (Stage s F out files r) (generateEntry s) fun failure _ =>
      Unusable (F.putFiles out files) (Path.append s.packagePath Manifest.fileName) failure := by
  refine .bind (spec_log _ _) (fails_log _ _) fun _ => ?_
  refine .bind spec_get fails_get fun q => .of_fact fun _ => ?_
  refine .bind (spec_manifest_none hr).forget fails_manifest ?_
  refine fun manifest => .of_fact fun _ => .bind spec_get fails_get fun q => .of_fact fun _ => ?_
  refine .bind_never ((Stage.not_fails_writeArtifact hF isFileName_entry ha _).mono ?_)
    fun _ _ => ⟨_, _, rfl⟩
  exact fun _ _ h => h.elim

/-- The entry is generated unless there is no manifest. -/
theorem generateEntry_error_iff (hs : s.outputPath ≠ []) (hd : d.WellFormed)
    (hshort : (Path.append s.outputPath Manifest.fileName).byteCount ≤ maxPath)
    (h : Succeeds s Step.generateEntry.before (start s d) p) :
    (∃ q, Action.take s .generateEntry p = .error failure q) ↔
      Unusable p.disk (Path.append s.packagePath Manifest.fileName) failure := by
  obtain ⟨m, out, sources, hprep, hF, hstage⟩ := stage_generateEntry hs hd h
  have hfails := fails_generateEntry_unusable hF (by rfl)
    (allowed_entry (allowed_output hs hd hprep) hshort) p hstage
  rw [← hstage.disk] at hfails
  constructor
  · rintro ⟨q, herror⟩
    exact hfails failure q herror
  · intro hunusable
    cases htake : Action.take s .generateEntry p with
    | error failure' q => exact ⟨q, by rw [(hfails failure' q htake).unique hunusable]⟩
    | ok u q =>
      obtain ⟨manifest, -, text, htext, hparse⟩ := (spec_generateEntry hF).of_ok hstage htake
      rw [← hstage.disk] at htext
      rw [hunusable.parse_eq htext] at hparse
      cases hparse

/-! ### Builds -/

/-- A build is about to write the manifest of its output: it knows the manifest of the package,
which it has read before it generated the entry, and there is no such file in its output. -/
structure ManifestDue (s : Settings) (d : Disk) (p : Progress) : Prop where
  known : ∃ entry text manifest, Succeeds s Step.generateEntry.before (start s d) entry ∧
    entry.disk.readText (Path.append s.packagePath Manifest.fileName) = .ok text ∧
    Manifest.parse (Path.append s.packagePath Manifest.fileName) text = .ok manifest ∧
    Action.manifest s p = .ok manifest p
  fresh : ∃ out, p.disk.find s.outputPath = .ok (out, .directory) ∧
    p.disk.get? (out ++ [Manifest.fileName]) = none
  absent : p.disk.exists? (Path.append s.outputPath Manifest.fileName) = false

theorem manifest_of_known {manifest : Manifest} (h : p.records.manifest = some manifest) :
    Action.manifest s p = .ok manifest p := by
  obtain ⟨disk, log, headers, names, known, report⟩ := p
  obtain rfl : known = some manifest := h
  rfl

theorem manifestDue (hs : s.outputPath ≠ []) (hd : d.WellFormed)
    (hshort : (Path.append s.outputPath Manifest.fileName).byteCount ≤ maxPath)
    (h : Succeeds s Step.generateManifest.before (start s d) p) : ManifestDue s d p := by
  obtain ⟨m, out, plan, entry, hprep, hF, hstage, hentry, text, htext, hparse⟩ :=
    stage_generateManifest hs hd h
  have houtput := allowed_output hs hd hprep
  have hnone : p.disk.get? (out ++ [Manifest.fileName]) = none := by
    have hnot : Manifest.fileName ∉ (plan.scripts ++ [plan.entry]).map Prod.fst := by
      rw [List.map_append, List.mem_append, not_or]
      exact ⟨plan.manifest_not_mem_scripts, show Manifest.fileName ∉ [Entry.fileName] by decide⟩
    rw [hstage.disk, get?_putFiles, last?_eq_none_iff.2 hnot]
    exact hF.empty _ (by simp)
  have hreach := hF.reaches.mono (.of_le (hstage.adds hF).le)
  have hknown : p.records.manifest = some plan.manifest := by rw [hstage.records]; rfl
  exact ⟨⟨entry, text, plan.manifest, hentry, htext, hparse, manifest_of_known hknown⟩,
    ⟨out, hreach.find (hstage.adds hF).wf houtput, hnone⟩,
    not_exists_of_reaches hreach isFileName_manifest
      (allowed_append houtput isFileName_manifest hshort) hnone⟩

theorem not_firstFailing_generateManifest (hs : s.outputPath ≠ []) (hd : d.WellFormed)
    (hshort : (Path.append s.outputPath Manifest.fileName).byteCount ≤ maxPath) :
    ¬FirstFailing s d .generateManifest failure := by
  rintro ⟨p, q, hbefore, herror⟩
  obtain ⟨m, out, plan, entry, hprep, hF, hstage, -⟩ := stage_generateManifest hs hd hbefore
  exact not_fails_generateManifest hF rfl
    (allowed_append (allowed_output hs hd hprep) isFileName_manifest hshort) p hstage failure q herror

/-- Only the step that generates the entry reports that a manifest is none. -/
theorem state_of_manifest_error (hs : b.settings.outputPath ≠ []) (hd : d.WellFormed)
    (hshort : (Path.append b.settings.outputPath Manifest.fileName).byteCount ≤ maxPath)
    (h : (b.build d).result = .error (.manifestSyntax path) ∨
      (b.build d).result = .error (.manifestShape path)) :
    (b.build d).builder.state = .failed (some .generateEntry) := by
  rcases build_cases b d with ⟨setting, hmissing⟩ | ⟨hv, ⟨step, failure, hfirst⟩ | ⟨q, hall⟩⟩
  · rw [(build_of_missing hmissing).2.1] at h
    rcases h with h | h <;> cases h
  · obtain ⟨hstate, hresult⟩ := build_of_firstFailing hv hfirst
    rw [hresult] at h
    rcases hfirst.canFail.isIo_or_readsManifest with ⟨_, _, rfl⟩ | hreads
    · rcases h with h | h <;> cases h
    · cases step with
      | generateEntry => exact hstate
      | generateManifest => exact absurd hfirst (not_firstFailing_generateManifest hs hd hshort)
      | _ => cases hreads
  · rw [(build_of_succeeds hv hall).2] at h
    rcases h with h | h <;> cases h

/-- Where the path of the output's manifest is not too long, no build fails when it writes it. What
the step before reports is a manifest of the package that cannot be used, and that is reported
nowhere else. It is read once at most, and the output has none yet when its own is written. -/
theorem build_manifest (b : Builder) (hs : b.settings.outputPath ≠ []) (hd : d.WellFormed)
    (hshort : (Path.append b.settings.outputPath Manifest.fileName).byteCount ≤ maxPath) :
    let s := b.settings
    let outcome := b.build d
    outcome.builder.state ≠ .failed (some .generateManifest) ∧
      (∀ failure, (outcome.builder.state = .failed (some .generateEntry) ∧
          outcome.result = .error failure) ↔
        s.validate = .ok () ∧ ∃ p, Succeeds s Step.generateEntry.before (start s d) p ∧
          Unusable p.disk (Path.append s.packagePath Manifest.fileName) failure) ∧
      (∀ path, outcome.result = .error (.manifestSyntax path) ∨
          outcome.result = .error (.manifestShape path) →
        outcome.builder.state = .failed (some .generateEntry)) ∧
      (outcome.log.count (loading s) ≤ 1 ∧ (outcome.log.count (loading s) = 1 ↔
        s.validate = .ok () ∧ ∃ p, Succeeds s Step.generateEntry.before (start s d) p)) ∧
      ∀ p, Succeeds s Step.generateManifest.before (start s d) p → ManifestDue s d p := by
  intro s outcome
  have hdescribes := describes_build b d
  refine ⟨fun hstate => ?_, fun failure => ⟨?_, ?_⟩, fun path => state_of_manifest_error hs hd hshort,
    count_loading b d, fun p => manifestDue hs hd hshort⟩
  · obtain ⟨-, failure, hfirst, -⟩ := (hdescribes.failed .generateManifest).1 hstate
    exact not_firstFailing_generateManifest hs hd hshort hfirst
  · rintro ⟨hstate, hresult⟩
    obtain ⟨hset, failure', ⟨p, q, hbefore, herror⟩, hresult'⟩ :=
      (hdescribes.failed .generateEntry).1 hstate
    obtain rfl : failure = failure' := Except.error.inj (hresult.symm.trans hresult')
    exact ⟨Settings.validate_eq_ok_iff.2 hset, p, hbefore,
      (generateEntry_error_iff hs hd hshort hbefore).1 ⟨q, herror⟩⟩
  · rintro ⟨hv, p, hbefore, hunusable⟩
    obtain ⟨q, herror⟩ := (generateEntry_error_iff hs hd hshort hbefore).2 hunusable
    exact build_of_firstFailing hv ⟨p, q, hbefore, herror⟩

/-- The package at the root has a manifest that is no object. -/
def shapeless : Disk :=
  ⟨[(["package.json".toList], .file (Bytes.ofText "[]".toList)),
    (["src".toList], .directory),
    (["src".toList, "package.json".toList], .file [])], by decide⟩

theorem build_manifest_shapeless :
    (rootBuilder.build shapeless).builder.state = .failed (some .generateEntry) ∧
      (rootBuilder.build shapeless).disk.names ["lib".toList] = ["package.json.js".toList] := by
  have hwf : shapeless.WellFormed := by decide +kernel
  obtain ⟨-, -, hentry, -, -⟩ := build_manifest rootBuilder rootBuilder_outputPath_ne_nil hwf
    (by decide +kernel)
  exact ⟨hentry "/package.json".toList (.inr (by decide +kernel)), by decide +kernel⟩

/-- Where the output has no path, a directory with the name of the manifest may be there. -/
theorem manifest_refused_without_path :
    let d := innerPackage.put [Manifest.fileName] .directory
    d.WellFormed ∧ (Path.append hereBuilder.settings.outputPath Manifest.fileName).byteCount ≤
        maxPath ∧
      (hereBuilder.build d).builder.state = .failed (some .generateManifest) ∧
      (hereBuilder.build d).result = .error (.io Manifest.fileName .isADirectory) := by
  decide +kernel

end ModulePack
