import ModulePack.Proofs.Build.Remembered

/-!
# What a report says of the output

An artifact is `Stored` if its path still has the digest and the size that were reported of it. Each
artifact is, unless a later one has its name (`artifacts_stored`): the output names of two sources,
or that of a source and the entry, may be the same.
-/

namespace ModulePack

open Disk ModulePack.Action

variable {s : Settings} {d e F C : Disk} {m : Nat} {out l k : Location} {b : Builder}
  {report : Report} {plan : Plan} {readme license artifacts : List Artifact} {q : Progress}
  {a : Artifact} {r : Records} {x : Text} {p : Path} {node : Node}

/-- The path of an artifact has the digest and the number of bytes that were reported of it. -/
structure Stored (d : Disk) (a : Artifact) : Prop where
  digest : d.digest a.path = .ok a.digest
  size : ∃ l node, d.find a.path = .ok (l, node) ∧ d.size l = a.size

theorem Report.totalSize_eq_sum (r : Report) :
    r.totalSize = (r.artifacts.map Artifact.size).sum := by
  rw [totalSize, List.sum_eq_foldr, List.foldr_map]

/-! ### Entries of the output -/

theorem Action.Grown.find (h : Grown s F m out d) (hx : d.get? (out ++ [x]) = some node)
    (hlink : ∀ target, node ≠ .link target) :
    d.find (Path.append s.outputPath x) = .ok (out ++ [x], node) := by
  have hname := h.wf.isFileName hx
  refine find_eq_ok_iff.2 ⟨?_, hx⟩
  rw [h.reaches.locate_append hname (h.allowed x (mem_names.2 ⟨node, hx⟩))]
  refine walk_singleton hname fun target heq => hlink target ?_
  rw [hx] at heq
  exact Option.some.inj heq

theorem stored_textArtifact (h : Grown s F m out d) {text : Text}
    (hx : d.get? (out ++ [x]) = some (.file (Bytes.ofText text))) :
    Stored d (textArtifact s.outputPath (x, text)) := by
  have hfind := h.find hx (by simp)
  refine ⟨?_, _, _, hfind, ?_⟩
  · show (d.digestBytes _).map hexDigest = _
    rw [digestBytes, textArtifact, hfind]
    rfl
  · rw [size_of_file h.wf hx, Bytes.length_ofText]
    rfl

theorem Stored.of_le (h : Stored d a) (hd : d.WellFormed) (hde : d ≤ e)
    (hsame : ∀ l node, d.find a.path = .ok (l, node) → ∀ k, l <+: k → e.get? k = d.get? k) :
    Stored e a := by
  obtain ⟨l, node, hfind, hsize⟩ := h.size
  have hl := hsame l node hfind
  exact ⟨digest_of_le hde hd hfind hl h.digest, l, node, find_of_le hde hfind,
    (size_congr hl).trans hsize⟩

theorem Action.CopiedOptional.stored (h : CopiedOptional s x d e artifacts) (hd : Grown s F m out d)
    (hx : IsFileName x) (hfresh : d.get? (out ++ [x]) = none) (ha : a ∈ artifacts) :
    a.name = x ∧ a.path = Path.append s.outputPath x ∧ Stored e a ∧
      ∃ node, e.find a.path = .ok (out ++ [x], node) := by
  have hgrown := h.grown hd hx hfresh
  rcases h.cases hd hx hfresh with
    ⟨-, -, rfl⟩ | ⟨l, node, size, digest, hfind, hlink, hcopied, hdigest, rfl⟩
  · cases ha
  obtain rfl := List.mem_singleton.1 ha
  have hroot := hgrown.find (hcopied.get?_root (find_eq_ok_iff.1 hfind).2 hlink) hlink
  refine ⟨rfl, rfl, ⟨hdigest, _, _, hroot, ?_⟩, node, hroot⟩
  have hzero : d.size (out ++ [x]) = 0 := size_eq_zero fun k content hk => by
    simp [hd.wf.get?_eq_none_of_prefix hfresh hk]
  rw [hcopied.size _ (List.prefix_refl _), hzero, Nat.zero_add]

theorem Action.CopiedOptional.size_output (h : CopiedOptional s x d e artifacts)
    (hd : Grown s F m out d) (hx : IsFileName x) (hfresh : d.get? (out ++ [x]) = none) :
    e.size out = d.size out + (artifacts.map Artifact.size).sum := by
  rcases h.cases hd hx hfresh with ⟨-, rfl, rfl⟩ | ⟨l, node, size, digest, -, -, hcopied, -, rfl⟩
  · rfl
  · rw [hcopied.size out (List.prefix_append ..)]
    simp

/-- The last element with a key is the only last one. -/
theorem eq_of_last {α β : Type} (key : α → β) {before after before' after' : List α} {a a' : α}
    (h : before ++ a :: after = before' ++ a' :: after') (hkey : key a = key a')
    (hlast : key a ∉ after.map key) (hlast' : key a' ∉ after'.map key) : a = a' := by
  rcases List.append_eq_append_iff.1 h with ⟨c, rfl, hc⟩ | ⟨c, rfl, hc⟩
  · cases c with
    | nil => exact (List.cons.inj hc).1
    | cons b c =>
      rw [(List.cons.inj hc).2] at hlast
      exact absurd (by simp [hkey]) hlast
  · cases c with
    | nil => exact (List.cons.inj hc).1.symm
    | cons b c =>
      rw [(List.cons.inj hc).2] at hlast'
      exact absurd (by simp [hkey]) hlast'

namespace Course

theorem stored_of_mem_copies (h : Course s F out plan C readme license q) (hF : Ready s F m out)
    (ha : a ∈ readme ++ license) :
    (a.name = readmeName ∨ a.name = licenseName) ∧ a.path = Path.append s.outputPath a.name ∧
      Stored q.disk a := by
  rcases List.mem_append.1 ha with ha | ha
  · obtain ⟨hname, hpath, hstored, node, hfind⟩ := h.copyReadme.stored (h.grown_files hF)
      isFileName_readme (hF.fresh plan (.inl rfl)) ha
    refine ⟨.inl hname, hname ▸ hpath, hstored.of_le (h.grown_readme hF).wf ?_ ?_⟩
    · exact (h.copyLicense.adds (h.grown_readme hF) isFileName_license (h.fresh_license hF)).le
    · intro l node' hfind' k hk
      rw [hfind] at hfind'
      obtain ⟨rfl, -⟩ : out ++ [readmeName] = l ∧ node = node' := by simpa using hfind'
      obtain ⟨r, rfl⟩ := hk
      simpa using h.get?_readme hF r
  · obtain ⟨hname, hpath, hstored, -⟩ := h.copyLicense.stored (h.grown_readme hF)
      isFileName_license (h.fresh_license hF) ha
    exact ⟨.inr hname, hname ▸ hpath, hstored⟩

theorem report_entryHeader (h : Course s F out plan C readme license q) :
    q.records.report.entryHeader = plan.header? := by
  rw [h.records]
  rfl

/-- Of the texts with one name, the last is in the output. -/
theorem get?_text (h : Course s F out plan C readme license q) (hF : Ready s F m out) {text : Text}
    (hx : last? x (plan.files s) = some text) :
    q.disk.get? (out ++ [x]) = some (.file (Bytes.ofText text)) := by
  obtain ⟨before, after, heq, -⟩ := last?_eq_some_iff.1 hx
  have hmem : x ∈ (plan.files s).map Prod.fst := by simp [heq]
  have hne : x ≠ readmeName ∧ x ≠ licenseName :=
    ⟨fun h => plan.not_mem_files (.inl h) hmem, fun h => plan.not_mem_files (.inr h) hmem⟩
  rw [h.get?_file hF hne, get?_putFiles, hx]

/-- Of the sources with one output name, the last is in the output. -/
theorem get?_script (h : Course s F out plan C readme license q) (hF : Ready s F m out)
    {before after : List (Text × Text)} {source : Text × Text}
    (heq : plan.sources = before ++ source :: after)
    (hlast : FileName.output source.1 ∉ after.map fun later => FileName.output later.1)
    (hne : FileName.output source.1 ≠ Entry.fileName) :
    q.disk.get? (out ++ [FileName.output source.1]) =
      some (.file (Bytes.ofText (Wrapped.ofSource source.2).text)) := by
  refine h.get?_text hF (last?_eq_some_iff.2 ⟨before.map script,
    after.map script ++ [plan.entry, plan.package s], ?_, ?_⟩)
  · simp [Plan.files, Plan.scripts, heq, script]
  · have hmanifest : FileName.output source.1 ≠ Manifest.fileName := by
      intro heq
      have hscript := FileName.isScript_output source.1
      rw [heq] at hscript
      exact absurd hscript (by decide)
    simpa [Plan.entry, Plan.package, hne, hmanifest, script, Function.comp_def] using hlast

theorem output_files (h : Course s F out plan C readme license q) (hF : Ready s F m out)
    (hx : x ≠ readmeName ∧ x ≠ licenseName) : x ∈ q.disk.names out ↔
      x ∈ plan.names.map FileName.output ∨ x = Entry.fileName ∨ x = Manifest.fileName := by
  rw [mem_names, h.get?_file hF hx, ← mem_names, mem_names_putFiles hF.empty, Plan.files,
    List.map_append, plan.fst_scripts]
  simp [Plan.entry, Plan.package]

theorem size_output (h : Course s F out plan C readme license q) (hF : Ready s F m out)
    (hnodup : ((plan.files s).map Prod.fst).Nodup) :
    q.records.report.totalSize = q.disk.size out := by
  have hzero : F.size out = 0 := size_eq_zero fun k content hk => by
    obtain ⟨r, rfl⟩ := hk
    cases r with
    | nil => simp [hF.reaches.directory hF.wf]
    | cons x r => simp [hF.empty (out ++ x :: r) (by simp)]
  rw [h.copyLicense.size_output (h.grown_readme hF) isFileName_license (h.fresh_license hF),
    h.copyReadme.size_output (h.grown_files hF) isFileName_readme (hF.fresh plan (.inl rfl)),
    size_putFiles hF.empty hnodup, hzero, Report.totalSize_eq_sum, (h.remembered hF).report_artifacts]
  simp [textArtifact, Function.comp_def, Nat.add_assoc]

/-- Each artifact is stored unless a later one has its name. -/
theorem stored_of_last (h : Course s F out plan C readme license q) (hF : Ready s F m out)
    {before after : List Artifact} (heq : q.records.report.artifacts = before ++ a :: after)
    (hlast : a.name ∉ after.map Artifact.name) : Stored q.disk a := by
  have hmem : a ∈ q.records.report.artifacts := by simp [heq]
  rw [(h.remembered hF).report_artifacts] at hmem heq
  rcases List.mem_append.1 hmem with ha | ha
  · -- the last text with this name is the one that the artifact reports
    obtain ⟨⟨x, text⟩, hfile, rfl⟩ := List.mem_map.1 ha
    obtain ⟨other, hother⟩ : ∃ other, last? x (plan.files s) = some other :=
      Option.ne_none_iff_exists'.1 fun hnone =>
        last?_eq_none_iff.1 hnone (List.mem_map_of_mem hfile)
    obtain ⟨fb, fa, hfiles, hnot⟩ := last?_eq_some_iff.1 hother
    have hsame : textArtifact s.outputPath (x, text) = textArtifact s.outputPath (x, other) := by
      rw [hfiles, List.map_append, List.map_cons, List.append_assoc, List.cons_append] at heq
      refine eq_of_last Artifact.name heq.symm rfl hlast ?_
      rw [List.map_append, List.mem_append, not_or]
      refine ⟨fun hx => hnot (by simpa [textArtifact, Function.comp_def] using hx), fun hx => ?_⟩
      obtain ⟨c, hc, hname⟩ := List.mem_map.1 hx
      have hcopy := (h.stored_of_mem_copies hF hc).1
      rw [hname] at hcopy
      exact plan.not_mem_files (s := s) hcopy (List.mem_map_of_mem hfile)
    rw [hsame]
    exact stored_textArtifact (h.grown hF) (h.get?_text hF hother)
  · exact (h.stored_of_mem_copies hF ha).2.2

end Course

/-! ### Names in the output -/

/-- No two of the scripts, the entry and the manifest of an output have the same name. -/
structure NoClash (names : List Text) : Prop where
  stem : "index".toList ∉ names
  entry : Entry.fileName ∉ names
  script : ∀ x ∈ names, FileName.isScript x = false → x ++ FileName.scriptExtension ∉ names

theorem output_eq_output {x y : Text} (h : FileName.output x = FileName.output y) (hxy : x ≠ y) :
    FileName.isScript x = false ∧ y = x ++ FileName.scriptExtension ∨
      FileName.isScript y = false ∧ x = y ++ FileName.scriptExtension := by
  unfold FileName.output at h
  split at h <;> rename_i hx <;> split at h <;> rename_i hy
  · exact absurd h hxy
  · exact .inr ⟨by simpa using hy, h⟩
  · exact .inl ⟨by simpa using hx, h.symm⟩
  · exact absurd (List.append_cancel_right h) hxy

theorem output_of_not_isScript (hx : FileName.isScript x = false) :
    FileName.output x = x ++ FileName.scriptExtension := by
  rw [FileName.output, if_neg (by simp [hx])]

theorem nodup_output_iff {names : List Text} (hnames : names.Nodup) :
    (names.map FileName.output).Nodup ↔
      ∀ x ∈ names, FileName.isScript x = false → x ++ FileName.scriptExtension ∉ names := by
  rw [List.nodup_map_iff_inj_on hnames]
  constructor
  · intro h x hx hscript hmem
    have hsame : FileName.output x = FileName.output (x ++ FileName.scriptExtension) := by
      rw [output_of_not_isScript hscript, FileName.output, if_pos (FileName.isScript_append x)]
    have := congrArg List.length (h x hx _ hmem hsame)
    simp [FileName.scriptExtension] at this
  · intro h x hx y hy hsame
    by_contra hxy
    rcases output_eq_output hsame hxy with ⟨hscript, rfl⟩ | ⟨hscript, rfl⟩
    · exact h x hx hscript hy
    · exact h y hy hscript hx

theorem entry_mem_output_iff {names : List Text} : Entry.fileName ∈ names.map FileName.output ↔
    "index".toList ∈ names ∨ Entry.fileName ∈ names := by
  constructor
  · intro h
    obtain ⟨x, hx, heq⟩ := List.mem_map.1 h
    have hentry : FileName.output Entry.fileName = Entry.fileName := by decide
    by_cases hsame : x = Entry.fileName
    · exact .inr (hsame ▸ hx)
    · rw [← hentry] at heq
      rcases output_eq_output heq hsame with ⟨-, hstem⟩ | ⟨hscript, -⟩
      · have hindex : Entry.fileName = "index".toList ++ FileName.scriptExtension := by decide
        rw [hindex] at hstem
        exact .inl (List.append_cancel_right hstem ▸ hx)
      · exact absurd hscript (by decide)
  · rintro (h | h)
    · exact List.mem_map.2 ⟨_, h, by decide⟩
    · exact List.mem_map.2 ⟨_, h, by decide⟩

theorem Plan.nodup_files_iff (hnames : plan.names.Nodup) :
    ((plan.files s).map Prod.fst).Nodup ↔ NoClash plan.names := by
  have hfiles : (plan.files s).map Prod.fst =
      plan.names.map FileName.output ++ [Entry.fileName, Manifest.fileName] := by
    rw [Plan.files, List.map_append, plan.fst_scripts]
    rfl
  have hmanifest := plan.manifest_not_mem_scripts
  rw [plan.fst_scripts] at hmanifest
  have hpair : [Entry.fileName, Manifest.fileName].Nodup := by decide
  rw [hfiles, List.nodup_append', nodup_output_iff hnames]
  constructor
  · rintro ⟨hscript, -, hdisjoint⟩
    have hentry : Entry.fileName ∉ plan.names.map FileName.output :=
      fun hmem => hdisjoint hmem (by simp)
    rw [entry_mem_output_iff, not_or] at hentry
    exact ⟨hentry.1, hentry.2, hscript⟩
  · intro h
    refine ⟨h.script, hpair, fun x hx hx' => ?_⟩
    rcases List.mem_cons.1 hx' with rfl | hx'
    · exact (entry_mem_output_iff.1 hx).elim h.stem h.entry
    · exact hmanifest (List.mem_singleton.1 hx' ▸ hx)

theorem Action.CopiedOptional.names (h : CopiedOptional s x d e artifacts) :
    artifacts.map Artifact.name = [] ∨ artifacts.map Artifact.name = [x] := by
  cases h with
  | absent h => exact .inl rfl
  | copied h hcopy hdigest => exact .inr rfl

theorem Remembered.nodup_artifacts_iff (h : Remembered s F plan readme license r) :
    (r.report.artifacts.map Artifact.name).Nodup ↔ ((plan.files s).map Prod.fst).Nodup := by
  have hnames : r.report.artifacts.map Artifact.name =
      (plan.files s).map Prod.fst ++ (readme ++ license).map Artifact.name := by
    rw [h.report_artifacts]
    simp [textArtifact, Function.comp_def]
  have hcopies : ((readme ++ license).map Artifact.name).Nodup := by
    obtain ⟨d, e, -, hreadme⟩ := h.copyReadme
    obtain ⟨d', e', -, hlicense⟩ := h.copyLicense
    rw [List.map_append]
    rcases hreadme.names with hr | hr <;> rcases hlicense.names with hl | hl <;>
      rw [hr, hl] <;> decide
  rw [hnames, List.nodup_append']
  refine ⟨fun hall => hall.1, fun hfiles => ⟨hfiles, hcopies, fun x hx hx' => ?_⟩⟩
  obtain ⟨c, hc, rfl⟩ := List.mem_map.1 hx'
  exact plan.not_mem_files (h.name_of_mem_copies hc) hx

/-! ### Reports -/

/-- After a build each artifact is stored as it was reported, unless a later one has its name. No
two have the same name exactly if no two sources do, with `.js` added, nor a source and the entry.
Then every text that was written is in the output, and the report counts all bytes there. -/
theorem artifacts_stored (b : Builder) {d : Disk} (hs : b.settings.outputPath ≠ [])
    (hd : d.WellFormed) {report : Report} (hok : (b.build d).result = .ok report) :
    (∀ before a after, report.artifacts = before ++ a :: after →
      a.name ∉ after.map Artifact.name → Stored (b.build d).disk a) ∧
    ((report.artifacts.map Artifact.name).Nodup ↔ NoClash (report.transpiled.map Prod.fst)) ∧
    ((report.artifacts.map Artifact.name).Nodup → ∃ out sources,
      (b.build d).disk.find b.settings.outputPath = .ok (out, .directory) ∧
      report.totalSize = (b.build d).disk.size out ∧
      report.transpiled.map Prod.fst = sources.map Prod.fst ∧
      SourcesRead b.settings (prepared b.settings d) out sources ∧
      ∀ source ∈ sources, (b.build d).disk.readText
        (Path.append b.settings.outputPath (FileName.output source.1)) =
          .ok (Wrapped.ofSource source.2).text) := by
  obtain ⟨-, m, out, plan, C, readme, license, q, hF, h, rfl, hdisk⟩ := course_of_build hs hd hok
  rw [← hdisk]
  have hremembered := h.remembered hF
  have hnames := hremembered.transpiled_names
  refine ⟨fun before a after heq hlast => h.stored_of_last hF heq hlast, ?_, fun hdistinct => ?_⟩
  · rw [hnames, hremembered.nodup_artifacts_iff, Plan.nodup_files_iff hremembered.nodup_names]
  rw [hremembered.nodup_artifacts_iff] at hdistinct
  refine ⟨out, plan.sources, (h.find_output hs hF).2, h.size_output hF hdistinct, hnames,
    h.read, fun source hsource => ?_⟩
  have hfile : script source ∈ plan.files b.settings :=
    List.mem_append_left _ (List.mem_map_of_mem hsource)
  exact readText_of_find ((h.grown hF).find (h.get?_text hF (last?_of_mem hdistinct hfile)) (by simp))

theorem artifacts_stored_rootPackage : ∃ report out,
    (rootBuilder.build rootPackage).result = .ok report ∧
    (report.artifacts.map Artifact.name).Nodup ∧
    (∀ before a after, report.artifacts = before ++ a :: after →
      a.name ∉ after.map Artifact.name → Stored (rootBuilder.build rootPackage).disk a) ∧
    report.totalSize = (rootBuilder.build rootPackage).disk.size out := by
  obtain ⟨report, hok, hsources⟩ := rootPackage_builds
  obtain ⟨hstored, hclash, hrest⟩ :=
    artifacts_stored rootBuilder rootBuilder_outputPath_ne_nil rootPackage_wellFormed hok
  have hnone : NoClash ["a.js".toList] := ⟨by decide, by decide, by decide⟩
  have hdistinct := hclash.2 (hsources ▸ hnone)
  obtain ⟨out, sources, -, hsize, -⟩ := hrest hdistinct
  exact ⟨report, out, hok, hdistinct, hstored, hsize⟩

/-- A package whose source is named as the entry is. -/
def clashing : Disk :=
  ⟨[(["package.json".toList], .file (Bytes.ofText "{}".toList)),
    (["src".toList], .directory),
    (["src".toList, Entry.fileName], .file [])], by decide⟩

/-- The script of that source is overwritten by the entry, and both are reported. Where the output
has no path, a script may be overwritten through a link that was there. -/
theorem artifacts_clash :
    (clashing.WellFormed ∧ ∃ report, (rootBuilder.build clashing).result = .ok report ∧
      ¬(report.artifacts.map Artifact.name).Nodup) ∧
    let d := innerPackage.put ["b.js".toList] (.link "a.js".toList)
    d.WellFormed ∧ ∃ report a after, (hereBuilder.build d).result = .ok report ∧
      report.artifacts = a :: after ∧ a.name ∉ after.map Artifact.name ∧
      ¬Stored (hereBuilder.build d).disk a := by
  have hnames : (rootBuilder.build clashing).result.toOption.map
      (fun report => report.artifacts.map Artifact.name) =
        some [Entry.fileName, Entry.fileName, Manifest.fileName] := by decide +kernel
  obtain ⟨report, hok, heq⟩ := exists_report hnames
  refine ⟨⟨by decide +kernel, report, hok, by rw [heq]; decide⟩, ?_⟩
  intro d
  have hreport : (hereBuilder.build d).result.toOption.map (fun report =>
      report.artifacts.map fun a => (a.name, a.path, a.size)) =
        some [("a.js".toList, "a.js".toList, 178), ("b.js".toList, "b.js".toList, 179),
          (Entry.fileName, Entry.fileName, 268), (Manifest.fileName, Manifest.fileName, 27),
          (readmeName, readmeName, 3)] := by decide +kernel
  obtain ⟨report, hok, hreport⟩ := exists_report hreport
  obtain ⟨a, after, hartifacts, ha, hafter⟩ := List.map_eq_cons_iff.1 hreport
  simp only [Prod.mk.injEq] at ha
  have hlast : after.map Artifact.name =
      ["b.js".toList, Entry.fileName, Manifest.fileName, readmeName] := by
    rw [show Artifact.name = Prod.fst ∘ fun a : Artifact => (a.name, a.path, a.size) from rfl,
      ← List.map_map, hafter]
    rfl
  refine ⟨by decide +kernel, report, a, after, hok, hartifacts, ?_, fun hstored => ?_⟩
  · rw [hlast, ha.1]
    decide
  · obtain ⟨l, node, hfind, hsize⟩ := hstored.size
    have hleads : ((hereBuilder.build d).disk.find "a.js".toList).toOption.map
      (fun entry => (hereBuilder.build d).disk.size entry.1) = some 179 := by decide +kernel
    rw [← ha.2.1, hfind] at hleads
    have h179 : (hereBuilder.build d).disk.size l = 179 := Option.some.inj hleads
    rw [h179, ha.2.2] at hsize
    cases hsize

end ModulePack
