import ModulePack.Proofs.Build.Actions

/-!
# What a whole build does

After `clean` and `prepare` the path of the output leads to an empty directory (`ready_prepared`),
and everything that stood outside the directory of before still stands (`unharmed_prepared`). From
there a build that succeeds is a `Course`: which files it has read and written, in which order, and
what it reports (`takeSteps_all`). What any build may leave, also one that stops, is what `Leaves`
says (`leaves_build`).

All of this is about builds whose output path is not empty. The first two steps let an empty one
pass and clean nothing, so that the output is whatever is in the directory from which relative paths
lead, as it is.
-/

namespace ModulePack

open Disk ModulePack.Action

variable {s : Settings} {d e F : Disk} {m : Nat} {out l : Location} {b : Builder} {report : Report}

/-! ### The disk after the first two steps -/

/-- The disk after the steps `clean` and `prepare`. -/
def prepared (s : Settings) (d : Disk) : Disk :=
  ((d.clear s.outputPath).2.makeDirectories s.outputPath).2

/-- Both steps succeed. -/
def Prepares (s : Settings) (d : Disk) : Prop :=
  (d.clear s.outputPath).1 = .ok () ∧
    ((d.clear s.outputPath).2.makeDirectories s.outputPath).1 = .ok ()

theorem made_prepared (hd : d.WellFormed) : Made (d.clear s.outputPath).2 (prepared s d) :=
  makeDirectories_made (clear_frame hd _).2.1 _

theorem ready_prepared (hs : s.outputPath ≠ []) (hd : d.WellFormed) (h : Prepares s d) :
    ∃ m out, Ready s (prepared s d) m out := by
  have hcleared := (clear_frame hd s.outputPath).2.1
  obtain ⟨m, out, hreach, ⟨hsame, hfind⟩ | ⟨-, hempty⟩⟩ := makeDirectories_ok hcleared _ hs h.2
  · refine ⟨m, out, (made_prepared hd).wf, hreach, ?_⟩
    have hremoved := clear_eq_removeBelow hd h.1 hfind
    intro k hk
    have hkeep : (prepared s d).get? k = ((d.clear s.outputPath).2).get? k := congrArg (·.get? k) hsame
    rw [hkeep, hremoved, get?_removeBelow, if_pos hk]
  · exact ⟨m, out, (made_prepared hd).wf, hreach, hempty⟩

/-- Whatever stood outside the directory that the path of the output led to still stands. -/
def Unharmed (s : Settings) (d e : Disk) : Prop :=
  ∀ k node, (∀ l, d.find s.outputPath = .ok (l, .directory) → isBelow l k = false) →
    d.get? k = some node → e.get? k = some node

theorem unharmed_clear (hd : d.WellFormed) : Unharmed s d (d.clear s.outputPath).2 :=
  fun k node hk hnode => by rw [(clear_frame hd s.outputPath).2.2 k hk, hnode]

theorem Unharmed.of_le (h : Unharmed s d F) (hle : F ≤ e) : Unharmed s d e :=
  fun k node hk hnode => hle k node (h k node hk hnode)

theorem unharmed_prepared (hd : d.WellFormed) : Unharmed s d (prepared s d) :=
  (unharmed_clear hd).of_le (made_prepared hd).le

/-- What is left alone outside an empty output is all that there was. -/
theorem Action.Ready.le (hF : Ready s F m out)
    (h : ∀ k, isBelow out k = false → e.get? k = F.get? k) : F ≤ e := by
  intro k node hk
  rw [h k, hk]
  by_contra hb
  rw [hF.empty k (by simpa using hb)] at hk
  cases hk

/-- What a build may leave of the disk `d`: it has stopped at one of the first two steps, or has
written to the empty directory `out` and nowhere else. -/
inductive Leaves (s : Settings) (d : Disk) : Disk → Prop
  | cleared : Leaves s d (d.clear s.outputPath).2
  | prepared : Leaves s d (prepared s d)
  | written {m : Nat} {out : Location} {e : Disk} (hF : Ready s (ModulePack.prepared s d) m out)
      (hprep : Prepares s d)
      (hsame : ∀ k, isBelow out k = false → e.get? k = (ModulePack.prepared s d).get? k) :
      Leaves s d e

theorem Leaves.unharmed (h : Leaves s d e) (hd : d.WellFormed) : Unharmed s d e := by
  cases h with
  | cleared => exact unharmed_clear hd
  | prepared => exact unharmed_prepared hd
  | written hF _ hsame => exact (unharmed_prepared hd).of_le (hF.le hsame)

/-! ### Successful builds -/

/-- A build that succeeds, from the disk `F` on which it begins to write: what it has read, written
and copied, and what it reports. -/
structure Course (s : Settings) (F : Disk) (out : Location) (plan : Plan) (C : Disk)
    (readme license : List Artifact) (q : Progress) : Prop where
  sources : ∃ l, F.find s.sourcePath = .ok (l, .directory) ∧
    plan.names = FileName.sort (F.names l)
  read : SourcesRead s F out plan.sources
  manifest : ManifestRead s F out plan.scripts plan.manifest
  allowed : ∀ file ∈ plan.files s, IsFileName file.1 ∧ Allowed (Path.append s.outputPath file.1)
  copyReadme : CopiedOptional s readmeName (F.putFiles out (plan.files s)) C readme
  copyLicense : CopiedOptional s licenseName C q.disk license
  records : q.records =
    plan.records ((plan.files s).map (textArtifact s.outputPath) ++ readme ++ license)

theorem Plan.fst_scripts (plan : Plan) :
    plan.scripts.map Prod.fst = plan.names.map FileName.output := by
  simp [Plan.scripts, Plan.names, script]

theorem Plan.isScript_of_mem_scripts {plan : Plan} {x : Text} (h : x ∈ plan.scripts.map Prod.fst) :
    FileName.isScript x = true := by
  rw [plan.fst_scripts] at h
  obtain ⟨name, -, rfl⟩ := List.mem_map.1 h
  exact FileName.isScript_output name

theorem Plan.manifest_not_mem_scripts (plan : Plan) :
    Manifest.fileName ∉ plan.scripts.map Prod.fst := fun hmem =>
  absurd (Plan.isScript_of_mem_scripts hmem) (by decide)

theorem Plan.name_of_mem_files {plan : Plan} {file : Text × Text} (h : file ∈ plan.files s) :
    FileName.isScript file.1 = true ∨ file.1 = Manifest.fileName := by
  rcases List.mem_append.1 h with h | h
  · exact .inl (Plan.isScript_of_mem_scripts (List.mem_map_of_mem h))
  · rcases List.mem_cons.1 h with rfl | h
    · exact .inl (show FileName.isScript Entry.fileName = true by decide)
    · obtain rfl := List.mem_singleton.1 h
      exact .inr rfl

theorem Plan.not_mem_files (plan : Plan) {x : Text} (hx : x = readmeName ∨ x = licenseName) :
    x ∉ (plan.files s).map Prod.fst := by
  intro hmem
  obtain ⟨file, hfile, hname⟩ := List.mem_map.1 hmem
  have hnot : ¬(FileName.isScript x = true ∨ x = Manifest.fileName) := by
    rcases hx with rfl | rfl <;> decide
  exact hnot (hname ▸ Plan.name_of_mem_files hfile)

theorem Plan.last?_entry (plan : Plan) : last? Entry.fileName (plan.files s) = some plan.entry.2 :=
  last?_eq_some_iff.2 ⟨plan.scripts, [plan.package s], rfl, by
    simp only [List.map_cons, List.map_nil, Plan.package]
    decide⟩

theorem Plan.last?_package (plan : Plan) :
    last? Manifest.fileName (plan.files s) = some (plan.package s).2 :=
  last?_eq_some_iff.2
    ⟨plan.scripts ++ [plan.entry], [], by simp [Plan.files, Plan.package], by simp⟩

theorem Action.Ready.fresh (hF : Ready s F m out) (plan : Plan) {x : Text}
    (hx : x = readmeName ∨ x = licenseName) :
    (F.putFiles out (plan.files s)).get? (out ++ [x]) = none := by
  rw [get?_putFiles, last?_eq_none_iff.2 (plan.not_mem_files hx), hF.empty _ (by simp)]

theorem isFileName_readme : IsFileName readmeName := by decide

theorem isFileName_license : IsFileName licenseName := by decide

theorem readme_ne_license : readmeName ≠ licenseName := by decide

namespace Course

variable {plan : Plan} {C : Disk} {readme license : List Artifact} {q : Progress}

theorem grown_files (h : Course s F out plan C readme license q) (hF : Ready s F m out) :
    Grown s F m out (F.putFiles out (plan.files s)) := grown_putFiles hF h.allowed

theorem grown_before (h : Course s F out plan C readme license q) (hF : Ready s F m out)
    {before after : List (Text × Text)} (heq : plan.sources = before ++ after) :
    Grown s F m out (F.putFiles out (before.map script)) :=
  grown_putFiles hF fun file hfile => h.allowed file <| by
    rw [Plan.files, Plan.scripts, heq, List.map_append]
    exact List.mem_append_left _ (List.mem_append_left _ hfile)

theorem grown_readme (h : Course s F out plan C readme license q) (hF : Ready s F m out) :
    Grown s F m out C :=
  h.copyReadme.grown (h.grown_files hF) isFileName_readme (hF.fresh plan (.inl rfl))

theorem fresh_license (h : Course s F out plan C readme license q) (hF : Ready s F m out) :
    C.get? (out ++ [licenseName]) = none := by
  rw [h.copyReadme.get?_eq_of_ne (h.grown_files hF) isFileName_readme (hF.fresh plan (.inl rfl))
    readme_ne_license, hF.fresh plan (.inr rfl)]

theorem grown (h : Course s F out plan C readme license q) (hF : Ready s F m out) :
    Grown s F m out q.disk :=
  h.copyLicense.grown (h.grown_readme hF) isFileName_license (h.fresh_license hF)

theorem find_output (hs : s.outputPath ≠ []) (h : Course s F out plan C readme license q)
    (hF : Ready s F m out) :
    F.find s.outputPath = .ok (out, .directory) ∧
      q.disk.find s.outputPath = .ok (out, .directory) := by
  have hentry := (h.allowed plan.entry (by simp [Plan.files])).2
  have ha := allowed_of_prefix hs (Path.prefix_append _ isName_entry.no_slash) hentry
  exact ⟨hF.reaches.find hF.wf ha, (h.grown hF).reaches.find (h.grown hF).wf ha⟩

theorem get?_readme (h : Course s F out plan C readme license q) (hF : Ready s F m out)
    (r : Location) : q.disk.get? (out ++ readmeName :: r) = C.get? (out ++ readmeName :: r) :=
  h.copyLicense.get?_eq_of_ne (h.grown_readme hF) isFileName_license (h.fresh_license hF)
    readme_ne_license.symm r

theorem get?_file (h : Course s F out plan C readme license q) (hF : Ready s F m out) {x : Text}
    (hx : x ≠ readmeName ∧ x ≠ licenseName) (r : Location) :
    q.disk.get? (out ++ x :: r) = (F.putFiles out (plan.files s)).get? (out ++ x :: r) := by
  rw [h.copyLicense.get?_eq_of_ne (h.grown_readme hF) isFileName_license (h.fresh_license hF)
    hx.2.symm, h.copyReadme.get?_eq_of_ne (h.grown_files hF) isFileName_readme
    (hF.fresh plan (.inl rfl)) hx.1.symm]

end Course

/-! ### All steps -/

/-- How steps end: with `final` if all of them succeed, else with `failed`. -/
def Ends (final failed : Progress → Prop) (end_ : Option (Step × Failure) × Progress) : Prop :=
  match end_ with
  | (none, q) => final q
  | (some _, q) => failed q

theorem Ends.mono {final final' failed failed' : Progress → Prop}
    {end_ : Option (Step × Failure) × Progress} (h : Ends final failed end_)
    (hfinal : ∀ q, final q → final' q) (hfailed : ∀ q, failed q → failed' q) :
    Ends final' failed' end_ := by
  obtain ⟨_ | _, q⟩ := end_
  · exact hfinal q h
  · exact hfailed q h

theorem Ends.snd {final : Progress → Prop} {end_ : Option (Step × Failure) × Progress}
    (h : Ends final final end_) : final end_.2 := by
  obtain ⟨_ | _, q⟩ := end_
  · exact h
  · exact h

theorem ends_cons {step : Step} {steps : List Step} {pre mid final failed : Progress → Prop}
    (h : Spec pre (take s step) (fun _ => mid) failed)
    (h' : ∀ q, mid q → Ends final failed (takeSteps s steps q)) :
    ∀ p, pre p → Ends final failed (takeSteps s (step :: steps) p) := by
  intro p hp
  have hstep := h p hp
  rw [takeSteps]
  split
  · rename_i q heq
    rw [heq] at hstep
    exact h' q hstep
  · rename_i failure q heq
    rw [heq] at hstep
    exact hstep

theorem spec_clean :
    Spec (At d .empty) (clean s)
      (fun _ q => At (d.clear s.outputPath).2 .empty q ∧ (d.clear s.outputPath).1 = .ok ())
      (fun q => Leaves s d q.disk) := by
  refine .bind (at_log _ _) fun _ => .bind at_disk fun e => .of_fact fun he => ?_
  rw [he]
  refine .bind (at_setDisk (d.clear s.outputPath).2) fun _ => ?_
  exact .ofExcept fun q h => h.disk ▸ .cleared

theorem spec_prepare :
    Spec (At (d.clear s.outputPath).2 .empty) (prepare s)
      (fun _ q => At (prepared s d) .empty q ∧
        ((d.clear s.outputPath).2.makeDirectories s.outputPath).1 = .ok ())
      (fun q => Leaves s d q.disk) := by
  refine .bind at_disk fun e => .of_fact fun he => ?_
  rw [he]
  refine .bind (at_setDisk (prepared s d)) fun _ => ?_
  exact .ask fun q h => h.disk ▸ .prepared

/-- What becomes of a build: it succeeds in its course, or stops with only its output changed. -/
theorem takeSteps_all (hs : s.outputPath ≠ []) (hd : d.WellFormed) (log : Log) :
    Ends (fun q => Prepares s d ∧ ∃ m out plan C readme license, Ready s (prepared s d) m out ∧
        Course s (prepared s d) out plan C readme license q)
      (fun q => Leaves s d q.disk) (takeSteps s Step.all ⟨d, log, .empty⟩) := by
  refine ends_cons spec_clean (fun q hq => ?_) _ ⟨rfl, rfl⟩
  refine ends_cons spec_prepare (fun q' hq' => ?_) q hq.1
  have hprep : Prepares s d := ⟨hq.2, hq'.2⟩
  obtain ⟨m, out, hF⟩ := ready_prepared hs hd hprep
  have hfailed : ∀ p, SameOutside out (prepared s d) p → Leaves s d p.disk :=
    fun p hp => .written hF hprep hp
  have hstage : Stage s (prepared s d) out [] .empty q' := ⟨hq'.1.disk, hq'.1.records, by simp⟩
  refine ends_cons ((spec_transpile hF).mono_failed hfailed)
    (fun q₁ ⟨sources, h₁, hsources, hread⟩ => ?_) q' hstage
  refine ends_cons ((spec_generateEntry hF).mono_failed hfailed)
    (fun q₂ ⟨manifest, h₂, hmanifest⟩ => ?_) q₁ h₁
  refine ends_cons ((spec_generateManifest hF ⟨sources, manifest⟩).mono_failed hfailed)
    (fun q₃ h₃ => ?_) q₂ h₂
  have hgrown := grown_putFiles hF h₃.allowed
  have hfresh := hF.fresh (s := s) ⟨sources, manifest⟩ (.inl rfl)
  have hreadme := isFileName_readme
  refine ends_cons ((spec_copyOptional hgrown hreadme hfresh).mono_failed hfailed)
    (fun q₄ ⟨readme, hcopied, hr₄⟩ => ?_) q₃ ⟨h₃.disk, h₃.records⟩
  have hgrown' := hcopied.grown hgrown hreadme hfresh
  have hfresh' : q₄.disk.get? (out ++ [licenseName]) = none := by
    rw [hcopied.get?_eq_of_ne hgrown hreadme hfresh readme_ne_license, hF.fresh _ (.inr rfl)]
  refine ends_cons ((spec_copyOptional hgrown' isFileName_license hfresh').mono_failed hfailed)
    (fun q₅ ⟨license, hcopied', hr₅⟩ => ?_) q₄ ⟨rfl, hr₄⟩
  refine ⟨hprep, m, out, ⟨sources, manifest⟩, q₄.disk, readme, license, hF, ?_⟩
  refine ⟨hsources, hread, hmanifest, h₃.allowed, hcopied, hcopied', ?_⟩
  rw [hr₅]
  rfl

/-! ### Builds -/

theorem build_of_refused {failure : Failure} (h : b.settings.validate = .error failure) :
    (b.build d).disk = d := by
  rw [Builder.build, h]

theorem build_of_accepted (h : b.settings.validate = .ok ()) :
    (b.build d).disk =
      (takeSteps b.settings Step.all ⟨d, announcement b.settings, .empty⟩).2.disk := by
  rw [Builder.build, h]
  dsimp only
  split
  · rename_i step failure q heq
    rw [heq]
  · rename_i q heq
    rw [heq]

theorem takeSteps_of_build (h : (b.build d).result = .ok report) :
    b.settings.validate = .ok () ∧ ∃ q, takeSteps b.settings Step.all
      ⟨d, announcement b.settings, .empty⟩ = (none, q) ∧ q.records.report = report ∧
        q.disk = (b.build d).disk := by
  cases hv : b.settings.validate with
  | error failure =>
    rw [Builder.build, hv] at h
    cases h
  | ok u =>
    refine ⟨rfl, ?_⟩
    rw [build_of_accepted hv]
    rw [Builder.build, hv] at h
    dsimp only at h
    split at h
    · cases h
    · rename_i q heq
      exact ⟨q, heq, Except.ok.inj h, by rw [heq]⟩

theorem exists_report {α : Type} {result : Except Failure Report} {f : Report → α} {a : α}
    (h : result.toOption.map f = some a) : ∃ report, result = .ok report ∧ f report = a := by
  cases result with
  | error failure => cases h
  | ok report => exact ⟨report, rfl, Option.some.inj h⟩

theorem course_of_build (hs : b.settings.outputPath ≠ []) (hd : d.WellFormed)
    (h : (b.build d).result = .ok report) :
    Prepares b.settings d ∧ ∃ m out plan C readme license q,
      Ready b.settings (prepared b.settings d) m out ∧
      Course b.settings (prepared b.settings d) out plan C readme license q ∧
      q.records.report = report ∧ q.disk = (b.build d).disk := by
  obtain ⟨-, q, hsteps, hreport, hdisk⟩ := takeSteps_of_build h
  have hall := takeSteps_all hs hd (announcement b.settings)
  rw [hsteps] at hall
  obtain ⟨hprep, m, out, plan, C, readme, license, hF, hcourse⟩ := hall
  exact ⟨hprep, m, out, plan, C, readme, license, q, hF, hcourse, hreport, hdisk⟩

/-- Whether it succeeds or fails, a build that is not refused changes nothing but its output. -/
theorem leaves_build (hs : b.settings.outputPath ≠ []) (hd : d.WellFormed)
    (h : b.settings.validate = .ok ()) : Leaves b.settings d (b.build d).disk := by
  rw [build_of_accepted h]
  have hall := takeSteps_all hs hd (announcement b.settings)
  rcases hend : takeSteps b.settings Step.all ⟨d, announcement b.settings, .empty⟩ with
    ⟨_ | step, q⟩
  · rw [hend] at hall
    obtain ⟨hprep, m, out, plan, C, readme, license, hF, hcourse⟩ := hall
    exact .written hF hprep (hcourse.grown hF).same
  · rw [hend] at hall
    exact hall

theorem unharmed_build (hs : b.settings.outputPath ≠ []) (hd : d.WellFormed) :
    Unharmed b.settings d (b.build d).disk := by
  cases hv : b.settings.validate with
  | error failure =>
    rw [build_of_refused hv]
    exact fun _ _ _ h => h
  | ok u => exact (leaves_build hs hd hv).unharmed hd

/-! ### A small package -/

/-- A builder for a package at the root, with the default directories. -/
def rootBuilder : Builder := .new ((Settings.new ['/'] ['/']).set ['.'] .packagePath)

/-- The package at the root has one source and has been built before. -/
def rootPackage : Disk :=
  ⟨[(["README.md".toList], .file (Bytes.ofText "# a".toList)),
    (["lib".toList], .directory),
    (["lib".toList, "old.js".toList], .file []),
    (["package.json".toList], .file (Bytes.ofText "{}".toList)),
    (["src".toList], .directory),
    (["src".toList, "a.js".toList], .file [])], by decide⟩

theorem rootBuilder_outputPath_ne_nil : rootBuilder.settings.outputPath ≠ [] := by decide

theorem rootPackage_wellFormed : rootPackage.WellFormed := by decide +kernel

theorem rootPackage_builds : ∃ report, (rootBuilder.build rootPackage).result = .ok report ∧
    report.transpiled.map Prod.fst = ["a.js".toList] := exists_report (by decide +kernel)

/-! ### An output without a path -/

/-- A builder that sees a package from an empty base. Its settings are accepted, but the path of its
output is empty. -/
def hereBuilder : Builder :=
  .new (((Settings.new ['/'] []).set "pkg".toList .packagePath).set "..".toList .outputPath)

/-- A package with two sources in a directory of its own. -/
def innerPackage : Disk :=
  ⟨[(["pkg".toList], .directory),
    (["pkg".toList, "README.md".toList], .file (Bytes.ofText "# a".toList)),
    (["pkg".toList, "package.json".toList], .file (Bytes.ofText "{}".toList)),
    (["pkg".toList, "src".toList], .directory),
    (["pkg".toList, "src".toList, "a.js".toList], .file (Bytes.ofText "a;".toList)),
    (["pkg".toList, "src".toList, "b.js".toList], .file (Bytes.ofText "bb;".toList))], by decide⟩

theorem hereBuilder_accepted :
    hereBuilder.settings.validate = .ok () ∧ hereBuilder.settings.outputPath = [] := by decide

end ModulePack
