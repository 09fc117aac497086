import ModulePack.Proofs.Build.Steps
import ModulePack.Proofs.Disk.Ways

/-!
# What any build remembers

A `Course` is of a build whose output path is not empty. Of the others, too, it is known what they
remember: the sources that were listed on the disk which `clean` and `prepare` left, each with a text
that was read of it, and the copies that were made (`remembered_of_build`). What becomes of the disk
meanwhile is said only as far as no directory and no link goes (`Since`): where nothing has been
cleaned, one file may be written over another.
-/

namespace ModulePack

open Disk ModulePack.Action

variable {s : Settings} {d e F C : Disk} {m : Nat} {out l : Location} {b : Builder} {r r' : Records}
  {report : Report} {plan : Plan} {sources : List (Text × Text)} {readme license : List Artifact}
  {names : List Text} {x : Text} {q : Progress}

/-- Since the disk `d` no directory and no link has gone, and `r` is remembered. -/
structure Since (d : Disk) (r : Records) (q : Progress) : Prop where
  ways : Ways d q.disk
  records : q.records = r

theorem Since.of_ways (h : Since e r q) (hde : Ways d e) : Since d r q :=
  ⟨hde.trans h.ways, h.records⟩

theorem Action.At.since (h : At d r q) : Since d r q := ⟨h.disk ▸ .refl d, h.records⟩

/-- An action that is known from every disk with the same records is known later on. -/
theorem Spec.since {α : Type} {action : Action α} {post : α → Progress → Prop}
    {failed : Progress → Prop} (h : ∀ e, Ways d e → Spec (At e r) action post failed) :
    Spec (Since d r) action post failed :=
  fun p hp => h p.disk hp.ways p ⟨rfl, hp.records⟩

/-- Some disk on which no directory and no link of `F` is missing read the text under the path. -/
def ReadSince (F : Disk) (path : Path) (text : Text) : Prop :=
  ∃ e, Ways F e ∧ e.readText path = .ok text

namespace Action

theorem since_log (level : Level) (text : Text) {failed : Progress → Prop} :
    Spec (Since d r) (log level text) (fun _ => Since d r) failed :=
  .modify fun _ h => ⟨h.ways, h.records⟩

theorem since_record (change : Records → Records) {failed : Progress → Prop} :
    Spec (Since d r) (record change) (fun _ => Since d (change r)) failed :=
  .modify fun _ h => ⟨h.ways, congrArg change h.records⟩

theorem since_writeArtifact (directory : Path) (x content : Text) :
    Spec (At d r) (writeArtifact directory x content)
      (fun _ => Since d { r with
        report.artifacts := r.report.artifacts ++ [textArtifact directory (x, content)] })
      fun _ => True := by
  refine ((at_writeArtifact directory x content).mono ?_).forget
  rintro _ q ⟨e, hq, hwrite⟩
  exact hq.since.of_ways (ways_writeBytes hwrite)

/-! ### Sources -/

theorem since_wrapSource (x : Text) :
    Spec (At d (wrappedRecords s sources)) (wrapSource s x)
      (fun _ q => ∃ text, Since d (wrappedRecords s (sources ++ [(x, text)])) q ∧
        d.readText (Path.append s.sourcePath x) = .ok text)
      fun _ => True := by
  refine .bind (at_log _ _) fun _ => .bind at_disk fun d' => .of_fact fun hd => ?_
  rw [hd]
  refine .bind (.ask fun _ _ => trivial) fun text => .of_fact fun htext => ?_
  rcases hsplit : Wrapped.split text with ⟨header, body⟩
  refine .bind (at_log _ _) fun _ => .bind (at_record _) fun _ => ?_
  refine .bind (since_writeArtifact _ _ _) fun _ => (since_record _).mono fun _ q h => ?_
  refine ⟨text, ⟨h.ways, ?_⟩, htext⟩
  rw [h.records]
  simp [wrappedRecords, script, Wrapped.ofSource, hsplit]

theorem since_wrapSources (names : List Text) :
    Spec (At d (wrappedRecords s sources)) (forAll (wrapSource s) names)
      (fun _ q => ∃ more, Since d (wrappedRecords s (sources ++ more)) q ∧
        more.map Prod.fst = names ∧
        ∀ source ∈ more, ReadSince d (Path.append s.sourcePath source.1) source.2)
      fun _ => True := by
  induction names generalizing d sources with
  | nil => exact .pure fun q h => ⟨[], by simpa using h.since, rfl, by simp⟩
  | cons x names ih =>
    refine .bind (since_wrapSource x) fun _ => ?_
    refine .of_exists fun text => .of_fact fun htext => .since fun e hde => ih.mono ?_
    rintro _ q ⟨more, h, rfl, hread⟩
    rw [List.append_assoc, List.singleton_append] at h
    refine ⟨(x, text) :: more, h.of_ways hde, rfl, List.forall_mem_cons.2 ⟨⟨d, .refl d, htext⟩, ?_⟩⟩
    intro source hsource
    obtain ⟨f, hef, hf⟩ := hread source hsource
    exact ⟨f, hde.trans hef, hf⟩

/-- All sources that are listed on the disk `F`, in build order, each with a text read of it. -/
structure ListedSince (s : Settings) (F : Disk) (sources : List (Text × Text)) : Prop where
  names : ∃ l, F.find s.sourcePath = .ok (l, .directory) ∧
    sources.map Prod.fst = FileName.sort (F.names l)
  read : ∀ source ∈ sources, ReadSince F (Path.append s.sourcePath source.1) source.2

theorem since_transpile :
    Spec (At F .empty) (transpile s)
      (fun _ q => ∃ sources,
        Since F { wrappedRecords s sources with names := sources.map Prod.fst } q ∧
        ListedSince s F sources)
      fun _ => True := by
  refine .bind (at_log _ _) fun _ => .bind at_disk fun d => .of_fact fun hd => ?_
  rw [hd]
  refine .bind (.ask fun _ _ => trivial) fun listing => .of_fact fun hlist => ?_
  obtain ⟨l, hfind, rfl⟩ := list_eq_ok_iff.1 hlist
  change Spec (At F (wrappedRecords s [])) _ _ _
  refine .bind (since_wrapSources _) fun _ => ?_
  refine .of_exists fun sources => .of_fact fun ⟨hsources, hread⟩ => ?_
  refine .bind (since_record _) fun _ => (since_log _ _).mono fun _ q h => ?_
  exact ⟨sources, hsources ▸ h, ⟨l, hfind, hsources⟩, hread⟩

/-! ### Generated files -/

theorem since_generateEntry :
    Spec (At d { wrappedRecords s sources with names := sources.map Prod.fst }) (generateEntry s)
      (fun _ q => ∃ manifest, Since d ((Plan.mk sources manifest).records
          (((Plan.mk sources manifest).scripts ++ [(Plan.mk sources manifest).entry]).map
            (textArtifact s.outputPath))) q ∧ ManifestOn s d manifest)
      fun _ => True := by
  refine .bind (at_log _ _) fun _ => .bind at_get fun p => .of_fact fun hp => ?_
  refine .bind (at_manifest_none rfl).forget fun manifest => ?_
  refine .of_fact fun hmanifest => .bind at_get fun p' => .of_fact fun hp' => ?_
  rw [hp, hp']
  refine .bind (since_writeArtifact _ _ _) fun _ => (since_record _).mono fun _ q h => ?_
  refine ⟨manifest, ⟨h.ways, ?_⟩, hmanifest⟩
  rw [h.records]
  simp [Plan.records, Plan.header?, Plan.names, Plan.scripts, Plan.entry, wrappedRecords]

/-- The manifest of the output is read as it has been written, wherever it is. -/
theorem since_generateManifest (plan : Plan) :
    Spec (At d (plan.records ((plan.scripts ++ [plan.entry]).map (textArtifact s.outputPath))))
      (generateManifest s)
      (fun _ q => Since d (plan.records ((plan.files s).map (textArtifact s.outputPath))) q ∧
        q.disk.readText (Path.append s.outputPath Manifest.fileName) = .ok (plan.package s).2)
      fun _ => True := by
  refine .bind (at_log _ _) fun _ => .bind (at_manifest_some rfl) fun manifest => ?_
  refine .of_fact fun hmanifest => .bind (at_logAll _) fun _ => ?_
  rw [hmanifest]
  refine ((at_writeArtifact _ _ _).mono ?_).forget
  rintro _ q ⟨e, hq, hwrite⟩
  refine ⟨⟨hq.disk ▸ ways_writeBytes hwrite, ?_⟩, hq.disk ▸ readText_of_writeText hwrite⟩
  rw [hq.records]
  simp [Plan.records, Plan.files, Plan.package]

theorem CopiedOptional.name_eq {artifacts : List Artifact} {a : Artifact}
    (h : CopiedOptional s x d e artifacts) (ha : a ∈ artifacts) : a.name = x := by
  cases h with
  | absent => cases ha
  | copied => rw [List.mem_singleton.1 ha]

theorem CopiedOptional.ways {artifacts : List Artifact}
    (h : CopiedOptional s x d e artifacts) : Ways d e := by
  cases h with
  | absent => exact .refl d
  | copied _ hcopy _ =>
    have hways := ways_copyListed d Disk.names (Path.append s.packagePath x)
      (Path.append s.outputPath x)
    rwa [← Disk.copy, hcopy] at hways

end Action

/-! ### Builds -/

/-- A build that succeeds, from the disk `F` on which it began to write, wherever its output is. -/
structure Remembered (s : Settings) (F : Disk) (plan : Plan) (readme license : List Artifact)
    (r : Records) : Prop where
  sources : ListedSince s F plan.sources
  copyReadme : ∃ d e, Ways F d ∧ CopiedOptional s readmeName d e readme
  copyLicense : ∃ d e, Ways F d ∧ CopiedOptional s licenseName d e license
  records : r = plan.records ((plan.files s).map (textArtifact s.outputPath) ++ readme ++ license)

theorem takeSteps_remembered (d : Disk) (log : Log) :
    Ends (fun q => ∃ plan readme license,
        Remembered s (prepared s d) plan readme license q.records)
      (fun _ => True) (takeSteps s Step.all ⟨d, log, .empty⟩) := by
  refine ends_cons spec_clean.forget (fun q hq => ?_) _ ⟨rfl, rfl⟩
  refine ends_cons spec_prepare.forget (fun q' hq' => ?_) q hq.1
  refine ends_cons since_transpile (fun q₁ ⟨sources, h₁, hsources⟩ => ?_) q' hq'.1
  refine ends_cons since_generateEntry (fun q₂ ⟨manifest, h₂, _⟩ => ?_) q₁ ⟨rfl, h₁.records⟩
  refine ends_cons (since_generateManifest ⟨sources, manifest⟩) (fun q₃ ⟨h₃, _⟩ => ?_) q₂
    ⟨rfl, h₂.records⟩
  refine ends_cons at_copyOptional.forget (fun q₄ ⟨readme, hreadme, hr₄⟩ => ?_) q₃
    ⟨rfl, h₃.records⟩
  refine ends_cons at_copyOptional.forget (fun q₅ ⟨license, hlicense, hr₅⟩ => ?_) q₄
    ⟨rfl, hr₄⟩
  have hways : Ways (prepared s d) q₃.disk := (h₁.ways.trans h₂.ways).trans h₃.ways
  refine ⟨⟨sources, manifest⟩, readme, license, hsources, ⟨_, _, hways, hreadme⟩,
    ⟨_, _, hways.trans hreadme.ways, hlicense⟩, ?_⟩
  rw [hr₅]
  rfl

theorem remembered_of_build (h : (b.build d).result = .ok report) :
    ∃ plan readme license r,
      Remembered b.settings (prepared b.settings d) plan readme license r ∧ r.report = report := by
  obtain ⟨-, q, hsteps, hreport, -⟩ := takeSteps_of_build h
  have hall := takeSteps_remembered (s := b.settings) d (announcement b.settings)
  rw [hsteps] at hall
  obtain ⟨plan, readme, license, hremembered⟩ := hall
  exact ⟨plan, readme, license, q.records, hremembered, hreport⟩

/-- What a course has read, it has read where nothing was missing. -/
theorem Course.remembered (h : Course s F out plan C readme license q) (hF : Ready s F m out) :
    Remembered s F plan readme license q.records := by
  refine ⟨⟨h.sources, fun source hsource => ?_⟩,
    ⟨_, C, .of_le (hF.le (h.grown_files hF).same), h.copyReadme⟩,
    ⟨C, _, .of_le (hF.le (h.grown_readme hF).same), h.copyLicense⟩, h.records⟩
  obtain ⟨before, after, heq⟩ := List.append_of_mem hsource
  exact ⟨_, .of_le (hF.le (h.grown_before hF heq).same), h.read before source after heq⟩

namespace Remembered

theorem report_artifacts (h : Remembered s F plan readme license r) :
    r.report.artifacts = (plan.files s).map (textArtifact s.outputPath) ++ (readme ++ license) := by
  rw [h.records]
  simp [Plan.records]

theorem report_transpiled (h : Remembered s F plan readme license r) :
    r.report.transpiled = plan.sources.map fun source => (source.1, FileName.output source.1) := by
  rw [h.records]
  rfl

theorem transpiled_names (h : Remembered s F plan readme license r) :
    r.report.transpiled.map Prod.fst = plan.names := by
  rw [h.report_transpiled, Plan.names]
  simp [Function.comp_def]

theorem nodup_names (h : Remembered s F plan readme license r) : plan.names.Nodup := by
  obtain ⟨l, -, hsort⟩ := h.sources.names
  rw [Plan.names, hsort]
  exact (FileName.sort_perm _).nodup_iff.2 (names_nodup _ l)

theorem name_of_mem_copies (h : Remembered s F plan readme license r) {a : Artifact}
    (ha : a ∈ readme ++ license) : a.name = readmeName ∨ a.name = licenseName := by
  obtain ⟨d, e, -, hreadme⟩ := h.copyReadme
  obtain ⟨d', e', -, hlicense⟩ := h.copyLicense
  rcases List.mem_append.1 ha with ha | ha
  · exact .inl (hreadme.name_eq ha)
  · exact .inr (hlicense.name_eq ha)

end Remembered

end ModulePack
