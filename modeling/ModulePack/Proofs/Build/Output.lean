import ModulePack.Proofs.Build.Artifacts

/-!
# The output of a build

A build that succeeds leaves in its output the scripts of its sources, the entry, the manifest, and
what there is of the two optional files, all of them made from the disk that `clean` and `prepare`
left (`build_output`). Nothing that the build itself writes comes in between, as long as no link
leads along the inside of the output.
-/

namespace ModulePack

open Disk ModulePack.Action

variable {s : Settings} {d e F C : Disk} {m : Nat} {out l k : Location} {b : Builder}
  {report : Report} {plan : Plan} {readme license artifacts : List Artifact} {q : Progress} {x : Text}
  {p : Path} {node : Node}

/-! ### Reading beside the output -/

/-- What is read beside the output of a build is the same before and after its changes. -/
theorem find_append_congr (hF : F.WellFormed) (havoid : F.LinksAvoid out)
    (hreach : F.Reaches p m l) (hx : IsFileName x) (hl : isBelow out l = false)
    (hlx : isBelow out (l ++ [x]) = false)
    (hle : F ≤ e) (hsame : ∀ k, isBelow out k = false → e.get? k = F.get? k) :
    e.find (Path.append p x) = F.find (Path.append p x) := by
  have hvisits : ∀ v ∈ F.visits m l [x], isBelow out v = false := by
    intro v hv
    have hv' := mem_visits_of_links_le hreach.links_le hv
    have hpass := passes_location hF (hreach.directory hF) maxLinks
    by_cases hlink : ∃ target, F.get? (l ++ [x]) = some (.link target)
    · obtain ⟨target, hlink⟩ := hlink
      exact havoid _ target hlink v (hpass.mem_visits hv')
    · rw [visits_entry hx.isEntryStep] at hv
      rcases List.mem_cons.1 hv with rfl | hv
      · exact hlx
      · split at hv
        · rename_i target h
          exact absurd ⟨target, h⟩ hlink
        · simp at hv
        · cases hv
  have hwalk : e.walk .follow m l [x] = F.walk .follow m l [x] :=
    (walk_congr fun v hv => (hsame v (hvisits v hv)).symm).symm
  by_cases ha : Allowed (Path.append p x)
  · have hreach' := hreach.mono (.of_le hle)
    unfold find
    rw [hreach.locate_append hx ha, hreach'.locate_append hx ha, hwalk]
    cases hw : F.walk .follow m l [x] with
    | error fault => rfl
    | ok k => simp only [bind, Except.bind, hsame k (not_isBelow_of_walk hvisits hl hw)]
  · obtain ⟨fault, -, hloc⟩ :=
      locate_of_not_allowed (Path.append_ne_nil p hx.ne_nil hx.no_slash) ha
    rw [find, find, hloc, hloc]
    rfl

theorem readText_congr (h : e.find p = F.find p) : e.readText p = F.readText p := by
  rw [readText, readText, readBytes, readBytes, h]

/-- What lies beside an empty output, in a directory other than the output. -/
theorem Action.Ready.not_isBelow_append (hF : Ready s F m out)
    (hl : F.get? l = some .directory) (hne : l ≠ out) (x : Text) :
    isBelow out l = false ∧ isBelow out (l ++ [x]) = false := by
  have hbelow : isBelow out l = false := by
    by_contra hb
    rw [hF.empty l (by simpa using hb)] at hl
    cases hl
  refine ⟨hbelow, ?_⟩
  by_contra hb
  rcases isBelow_concat_iff.1 (by simpa using hb) with heq | hb
  · exact hne heq
  · rw [hbelow] at hb
    cases hb

theorem Course.readText_source (h : Course s F out plan C readme license q) (hF : Ready s F m out)
    (havoid : F.LinksAvoid out) {source : Text × Text} (hsource : source ∈ plan.sources) :
    F.readText (Path.append s.sourcePath source.1) = .ok source.2 := by
  obtain ⟨before, after, heq⟩ := List.append_of_mem hsource
  obtain ⟨l, hfind, hnames⟩ := h.sources
  obtain ⟨m', hreach⟩ := reaches_of_find hfind
  have hname : source.1 ∈ F.names l := by
    rw [← FileName.mem_sort, ← hnames]
    exact List.mem_map_of_mem hsource
  have hne : l ≠ out := by
    rintro rfl
    obtain ⟨node, hnode⟩ := mem_names.1 hname
    rw [hF.empty _ (by simp)] at hnode
    cases hnode
  obtain ⟨hl, hlx⟩ := hF.not_isBelow_append (hreach.directory hF.wf) hne source.1
  have hgrown := h.grown_before hF heq
  rw [← readText_congr (find_append_congr hF.wf havoid hreach
    (isFileName_of_mem_names hF.wf hname) hl hlx (hF.le hgrown.same) hgrown.same)]
  exact h.read before source after heq

/-- Only files have been added when the manifest is read, so that its path leads past what there
was before, and past the output. -/
theorem Course.reaches_package (h : Course s F out plan C readme license q) (hF : Ready s F m out) :
    ∃ m l, F.Reaches s.packagePath m l ∧ l ≠ out := by
  have hnames : ∀ file ∈ plan.scripts, IsFileName file.1 := by
    intro file hfile
    exact (h.allowed file (List.mem_append_left _ hfile)).1
  have hadds := adds_putFiles hF.empty hF.wf (hF.reaches.directory hF.wf) hnames
  have hways : Ways (F.putFiles out plan.scripts) F := by
    have hold : ∀ k node, (F.putFiles out plan.scripts).get? k = some node →
        (∀ content, node ≠ .file content) → F.get? k = some node := by
      intro k node hk hnode
      cases hFk : F.get? k with
      | some old =>
        rw [hadds.le k old hFk] at hk
        exact hk
      | none =>
        obtain ⟨x, -, -, content, rfl⟩ := hadds.new k node hk hFk
        exact absurd rfl (hnode content)
    exact ⟨fun k hk => hold k _ hk (by simp), fun k target hk => hold k _ hk (by simp)⟩
  obtain ⟨text, hread, -⟩ := h.manifest
  obtain ⟨k, content, hfind⟩ := find_of_readText hread
  obtain ⟨hloc, hk⟩ := find_eq_ok_iff.1 hfind
  have hmanifest : IsFileName Manifest.fileName := by decide
  obtain ⟨m', l, hreach, hlast⟩ := reaches_of_locate_append hmanifest hloc
  refine ⟨m', l, hreach.mono hways, ?_⟩
  rintro rfl
  have hnone : (F.putFiles l plan.scripts).get? (l ++ [Manifest.fileName]) = none := by
    rw [get?_putFiles, last?_eq_none_iff.2 plan.manifest_not_mem_scripts, hF.empty _ (by simp)]
  rw [walk_singleton hmanifest (by simp [hnone])] at hlast
  rw [← Except.ok.inj hlast, hnone] at hk
  cases hk

theorem Course.find_package (h : Course s F out plan C readme license q) (hF : Ready s F m out)
    (havoid : F.LinksAvoid out) (hx : IsFileName x)
    (hsame : ∀ k, isBelow out k = false → e.get? k = F.get? k) :
    e.find (Path.append s.packagePath x) = F.find (Path.append s.packagePath x) := by
  obtain ⟨m', l, hreach, hne⟩ := h.reaches_package hF
  obtain ⟨hl, hlx⟩ := hF.not_isBelow_append (hreach.directory hF.wf) hne x
  exact find_append_congr hF.wf havoid hreach hx hl hlx (hF.le hsame) hsame

/-! ### What a build makes of a package -/

/-- A plan made from what the disk `F` holds: every source with its text, in alphabetical order, and
the manifest of the package. -/
structure Plan.ReadFrom (s : Settings) (F : Disk) (plan : Plan) : Prop where
  sources : ∃ l, F.find s.sourcePath = .ok (l, .directory) ∧
    plan.names = FileName.sort (F.names l)
  text : ∀ source ∈ plan.sources,
    F.readText (Path.append s.sourcePath source.1) = .ok source.2
  manifest : ∃ text, F.readText (Path.append s.packagePath Manifest.fileName) = .ok text ∧
    Manifest.parse (Path.append s.packagePath Manifest.fileName) text = .ok plan.manifest

/-- Those of the optional files that the package has. -/
def optionalNames (s : Settings) (F : Disk) : List Text :=
  [readmeName, licenseName].filter fun x => F.exists? (Path.append s.packagePath x)

/-- The output `out` of the disk `D` holds what is planned and nothing else, and the report says so.
Everything but the output itself is taken from the disk `F`. -/
structure Output (s : Settings) (F : Disk) (out : Location) (plan : Plan) (D : Disk)
    (report : Report) : Prop where
  names : ∀ x, x ∈ D.names out ↔ x ∈ plan.names.map FileName.output ∨ x = Entry.fileName ∨
    x = Manifest.fileName ∨ x ∈ optionalNames s F
  entry : D.get? (out ++ [Entry.fileName]) = some (.file (Bytes.ofText plan.entry.2))
  package : D.get? (out ++ [Manifest.fileName]) = some (.file (Bytes.ofText (plan.package s).2))
  /-- Of the sources with one output name, the last is there. -/
  script : ∀ before source after, plan.sources = before ++ source :: after →
    FileName.output source.1 ∉ after.map (fun later => FileName.output later.1) →
    FileName.output source.1 ≠ Entry.fileName →
    D.get? (out ++ [FileName.output source.1]) =
      some (.file (Bytes.ofText (Wrapped.ofSource source.2).text))
  /-- A copy is its original, at and below it, with the content of what links lead to. -/
  copy : ∀ x ∈ optionalNames s F, ∃ l node, F.find (Path.append s.packagePath x) = .ok (l, node) ∧
    ∀ r, D.get? (out ++ x :: r) = F.followed (l ++ r)
  transpiled : report.transpiled = plan.names.map fun name => (name, FileName.output name)
  entryHeader : report.entryHeader = plan.header?
  artifacts : ∃ copies, report.artifacts =
      (plan.files s).map (textArtifact s.outputPath) ++ copies ∧
    copies.map (fun a => (a.name, a.path)) =
      (optionalNames s F).map (fun x => (x, Path.append s.outputPath x)) ∧
    ∀ a ∈ copies, Stored D a

/-- Nothing in a tree lies in an empty output that the tree does not contain. -/
theorem Action.Ready.apart (hF : Ready s F m out) (hl : F.get? l = some node) (hout : ¬l <+: out)
    (r : Location) : isBelow out (l ++ r) = false := by
  by_contra hb
  obtain ⟨x, r', heq⟩ := isBelow_iff.1 (by simpa using hb)
  rcases List.prefix_or_prefix_of_prefix (List.prefix_append l r)
    (heq ▸ List.prefix_append out (x :: r')) with hpre | ⟨w, rfl⟩
  · exact hout hpre
  · cases w with
    | nil => simp at hout
    | cons y w =>
      rw [hF.empty _ (by simp)] at hl
      cases hl

/-- What the disk `D` and the report have of an optional file of the disk `F`. -/
structure CopyOf (s : Settings) (F : Disk) (out : Location) (x : Text) (D : Disk)
    (artifacts : List Artifact) : Prop where
  mem : x ∈ D.names out ↔ F.exists? (Path.append s.packagePath x) = true
  copy : F.exists? (Path.append s.packagePath x) = true →
    ∃ l node, F.find (Path.append s.packagePath x) = .ok (l, node) ∧
      ∀ r, D.get? (out ++ x :: r) = F.followed (l ++ r)
  reported : artifacts.map (fun a => (a.name, a.path)) =
    if F.exists? (Path.append s.packagePath x) then [(x, Path.append s.outputPath x)] else []

theorem CopyOf.congr (h : CopyOf s F out x d artifacts)
    (hsame : ∀ r, e.get? (out ++ x :: r) = d.get? (out ++ x :: r)) :
    CopyOf s F out x e artifacts := by
  refine ⟨?_, fun hexists => ?_, h.reported⟩
  · rw [mem_names, hsame [], ← mem_names, h.mem]
  · obtain ⟨l, node, hfind, hcopy⟩ := h.copy hexists
    exact ⟨l, node, hfind, fun r => by rw [hsame r, hcopy r]⟩

theorem Action.CopiedOptional.output (h : CopiedOptional s x d e artifacts)
    (hF : Ready s F m out) (hd : Grown s F m out d) (hx : IsFileName x)
    (hfresh : d.get? (out ++ [x]) = none) (havoid : F.LinksAvoid out)
    (hsame : d.find (Path.append s.packagePath x) = F.find (Path.append s.packagePath x))
    (hapart : ∀ l node, F.find (Path.append s.packagePath x) = .ok (l, node) → ¬l <+: out) :
    CopyOf s F out x e artifacts := by
  have hgrown := h.grown hd hx hfresh
  rcases h.cases hd hx hfresh with
    ⟨hnone, rfl, rfl⟩ | ⟨l, node, size, digest, hfind, hlink, hcopied, -, rfl⟩
  · rw [exists?, hsame] at hnone
    have habsent : F.exists? (Path.append s.packagePath x) = false := hnone
    constructor
    · rw [mem_names, hfresh, habsent]
      simp
    · rw [habsent]
      simp
    · rw [habsent]
      rfl
  · have hroot := hcopied.get?_root (find_eq_ok_iff.1 hfind).2 hlink
    rw [hsame] at hfind
    have hexists : F.exists? (Path.append s.packagePath x) = true := by
      rw [exists?, hfind]
      rfl
    constructor
    · rw [mem_names, hroot, hexists]
      simp
    · refine fun _ => ⟨l, node, hfind, fun r => ?_⟩
      have hout := hF.apart (find_eq_ok_iff.1 hfind).2 (hapart l node hfind)
      have := hcopied.get?_eq havoid hout hd.same hgrown.same r
      rwa [List.append_assoc, List.singleton_append] at this
    · rw [hexists]
      rfl

theorem mem_optionalNames : x ∈ optionalNames s F ↔
    (x = readmeName ∨ x = licenseName) ∧ F.exists? (Path.append s.packagePath x) = true := by
  simp [optionalNames]

namespace Course

theorem readFrom (h : Course s F out plan C readme license q) (hF : Ready s F m out)
    (havoid : F.LinksAvoid out) : plan.ReadFrom s F := by
  refine ⟨h.sources, fun source hsource => h.readText_source hF havoid hsource, ?_⟩
  obtain ⟨text, hread, hparse⟩ := h.manifest
  have hgrown : Grown s F m out (F.putFiles out plan.scripts) :=
    h.grown_before hF (List.append_nil plan.sources).symm
  have hmanifest : IsFileName Manifest.fileName := by decide
  rw [readText_congr (h.find_package hF havoid hmanifest hgrown.same)] at hread
  exact ⟨text, hread, hparse⟩

theorem output_copies (h : Course s F out plan C readme license q) (hF : Ready s F m out)
    (havoid : F.LinksAvoid out)
    (hapart : ∀ x ∈ optionalNames s F, ∀ l node,
      F.find (Path.append s.packagePath x) = .ok (l, node) → ¬l <+: out) :
    (∀ x, x = readmeName ∨ x = licenseName →
      (x ∈ q.disk.names out ↔ x ∈ optionalNames s F)) ∧
    (∀ x ∈ optionalNames s F, ∃ l node, F.find (Path.append s.packagePath x) = .ok (l, node) ∧
      ∀ r, q.disk.get? (out ++ x :: r) = F.followed (l ++ r)) ∧
    (readme ++ license).map (fun a => (a.name, a.path)) =
      (optionalNames s F).map (fun x => (x, Path.append s.outputPath x)) := by
  have hcontain : ∀ x, x = readmeName ∨ x = licenseName → ∀ l node,
      F.find (Path.append s.packagePath x) = .ok (l, node) → ¬l <+: out := fun x hx l node hfind =>
    hapart x (mem_optionalNames.2 ⟨hx, by rw [exists?, hfind]; rfl⟩) l node hfind
  have hreadme : CopyOf s F out readmeName q.disk readme :=
    (h.copyReadme.output hF (h.grown_files hF) isFileName_readme (hF.fresh plan (.inl rfl)) havoid
      (h.find_package hF havoid isFileName_readme (h.grown_files hF).same)
      (hcontain _ (.inl rfl))).congr (h.get?_readme hF)
  have hlicense : CopyOf s F out licenseName q.disk license :=
    h.copyLicense.output hF (h.grown_readme hF) isFileName_license (h.fresh_license hF) havoid
      (h.find_package hF havoid isFileName_license (h.grown_readme hF).same)
      (hcontain _ (.inr rfl))
  refine ⟨?_, ?_, ?_⟩
  · rintro x (rfl | rfl)
    · simp [hreadme.mem, mem_optionalNames]
    · simp [hlicense.mem, mem_optionalNames]
  · intro x hx
    obtain ⟨rfl | rfl, hexists⟩ := mem_optionalNames.1 hx
    · exact hreadme.copy hexists
    · exact hlicense.copy hexists
  · rw [List.map_append, hreadme.reported, hlicense.reported, optionalNames, List.filter_cons,
      List.filter_singleton]
    split <;> split <;> simp_all

theorem output (h : Course s F out plan C readme license q) (hF : Ready s F m out)
    (havoid : F.LinksAvoid out)
    (hapart : ∀ x ∈ optionalNames s F, ∀ l node,
      F.find (Path.append s.packagePath x) = .ok (l, node) → ¬l <+: out) :
    Output s F out plan q.disk q.records.report := by
  obtain ⟨hnames, hcopy, hcopies⟩ := h.output_copies hF havoid hapart
  refine ⟨fun x => ?_, h.get?_text hF plan.last?_entry, h.get?_text hF plan.last?_package, ?_,
    hcopy, ?_, ?_, readme ++ license, (h.remembered hF).report_artifacts, hcopies,
    fun a ha => (h.stored_of_mem_copies hF ha).2.2⟩
  · by_cases hx : x = readmeName ∨ x = licenseName
    · have hfile : ¬(x ∈ plan.names.map FileName.output ∨ x = Entry.fileName ∨
          x = Manifest.fileName) := fun hmem => plan.not_mem_files (s := s) hx <| by
        rw [Plan.files, List.map_append, plan.fst_scripts]
        simpa [Plan.entry, Plan.package] using hmem
      rw [hnames x hx]
      simp only [not_or] at hfile
      simp only [hfile, false_or]
    · rw [h.output_files hF (not_or.1 hx), mem_optionalNames]
      simp only [hx, false_and, or_false]
  · exact fun before source after heq hlast hne => h.get?_script hF heq hlast hne
  · rw [h.records]
    simp [Plan.records, Plan.names]
  · rw [h.records]
    rfl

end Course

/-- After a build that succeeds, the output holds what is made of the disk that `clean` and
`prepare` left, and nothing else. -/
theorem build_output (b : Builder) {d : Disk} (hs : b.settings.outputPath ≠ [])
    (hd : d.WellFormed) {report : Report} (hok : (b.build d).result = .ok report) :
    ∃ out, (prepared b.settings d).find b.settings.outputPath = .ok (out, .directory) ∧
      ((prepared b.settings d).LinksAvoid out →
        (∀ x ∈ optionalNames b.settings (prepared b.settings d), ∀ l node,
          (prepared b.settings d).find (Path.append b.settings.packagePath x) = .ok (l, node) →
            ¬l <+: out) →
        ∃ plan, plan.ReadFrom b.settings (prepared b.settings d) ∧
          Output b.settings (prepared b.settings d) out plan (b.build d).disk report) := by
  obtain ⟨-, m, out, plan, C, readme, license, q, hF, h, rfl, hdisk⟩ := course_of_build hs hd hok
  rw [← hdisk]
  exact ⟨out, (h.find_output hs hF).1, fun havoid hapart =>
    ⟨plan, h.readFrom hF havoid, h.output hF havoid hapart⟩⟩

theorem build_output_rootPackage : ∃ report plan,
    (rootBuilder.build rootPackage).result = .ok report ∧
    plan.ReadFrom rootBuilder.settings (prepared rootBuilder.settings rootPackage) ∧
    Output rootBuilder.settings (prepared rootBuilder.settings rootPackage) ["lib".toList] plan
      (rootBuilder.build rootPackage).disk report := by
  obtain ⟨report, hok, -⟩ := rootPackage_builds
  obtain ⟨out, hout, h⟩ :=
    build_output rootBuilder rootBuilder_outputPath_ne_nil rootPackage_wellFormed hok
  have hlib : (prepared rootBuilder.settings rootPackage).find rootBuilder.settings.outputPath =
      .ok (["lib".toList], .directory) := by decide +kernel
  obtain rfl := find_unique hlib hout
  have hnames : optionalNames rootBuilder.settings (prepared rootBuilder.settings rootPackage) =
      [readmeName] := by decide +kernel
  have hreadme : (prepared rootBuilder.settings rootPackage).find
      (Path.append rootBuilder.settings.packagePath readmeName) =
        .ok ([readmeName], .file (Bytes.ofText "# a".toList)) := by decide +kernel
  have hapart : ∀ x ∈ optionalNames rootBuilder.settings (prepared rootBuilder.settings rootPackage),
      ∀ l node, (prepared rootBuilder.settings rootPackage).find
        (Path.append rootBuilder.settings.packagePath x) = .ok (l, node) →
          ¬l <+: ["lib".toList] := by
    rw [hnames]
    intro x hx l node hfind
    rw [List.mem_singleton.1 hx] at hfind
    rw [← find_unique hreadme hfind]
    decide
  obtain ⟨plan, hread, houtput⟩ := h (by decide +kernel) hapart
  exact ⟨report, plan, hok, hread, houtput⟩

/-- A package whose license is a link that leads nowhere until there is a copy of `README.md`. -/
def passing : Disk :=
  ⟨[(["LICENSE".toList], .link "lib/README.md/../../other".toList),
    (["README.md".toList], .directory),
    (["README.md".toList, "x".toList], .file []),
    (["other".toList], .file []),
    (["package.json".toList], .file (Bytes.ofText "{}".toList)),
    (["src".toList], .directory)], by decide⟩

/-- No link leads into the output, and there is no license when the build begins to write. But the
output has one in the end. Where the output has no path, it keeps what was there. -/
theorem output_of_passing : passing.WellFormed ∧
    (∃ report, (rootBuilder.build passing).result = .ok report) ∧
    (∀ k target l, (prepared rootBuilder.settings passing).get? k = some (.link target) →
      (prepared rootBuilder.settings passing).walk .follow maxLinks [] k = .ok l →
        ¬["lib".toList] <+: l) ∧
    (prepared rootBuilder.settings passing).find
      (Path.append rootBuilder.settings.packagePath readmeName) = .ok ([readmeName], .directory) ∧
    (prepared rootBuilder.settings passing).exists?
      (Path.append rootBuilder.settings.packagePath licenseName) = false ∧
    licenseName ∈ (rootBuilder.build passing).disk.names ["lib".toList] ∧
    let d := innerPackage.put ["old.js".toList] (.file [])
    d.WellFormed ∧ (hereBuilder.build d).result.toOption.map (fun report => report.transpiled) =
        some [("a.js".toList, "a.js".toList), ("b.js".toList, "b.js".toList)] ∧
      Entry.fileName ∈ (hereBuilder.build d).disk.names [] ∧
      "old.js".toList ∈ (hereBuilder.build d).disk.names [] := by
  have hok : (rootBuilder.build passing).result.toOption.map (fun _ => ()) = some () := by
    decide +kernel
  obtain ⟨report, hok, -⟩ := exists_report hok
  have hlinks : ∀ entry ∈ (prepared rootBuilder.settings passing).entries,
      entry.2.isLink = true →
        ((prepared rootBuilder.settings passing).walk .follow maxLinks [] entry.1).isOk = false := by
    decide +kernel
  refine ⟨by decide +kernel, ⟨report, hok⟩, fun k target l hk hwalk => ?_, by decide +kernel,
    by decide +kernel, by decide +kernel, by decide +kernel⟩
  have := hlinks _ (mem_entries_of_link hk) rfl
  rw [hwalk] at this
  cases this

end ModulePack
