import ModulePack.Proofs.Build.Artifacts
import ModulePack.Proofs.Entry

/-!
# What the exports of an entry find

An entry exports each script under its stem and loads it as that stem, to which a loader adds `.js`
(`loaded`). A script keeps its name in the output, and no source that comes after it in
alphabetical order is written under that name (`Course.readText_script`). So an export finds its
script if that ends in `.js` as it stands, but for one called as the entry. `exports_load` says so,
and what there is to find for a script that ends in `.js` in another case.
-/

namespace ModulePack

open Disk ModulePack.Action

variable {s : Settings} {F C : Disk} {m : Nat} {out : Location} {plan : Plan}
  {readme license : List Artifact} {q : Progress} {x : Text} {before after : List Text}

/-- No name behind a script in alphabetical order has its output name: the only other name that has
it is shorter, and comes first. -/
theorem not_mem_output_after
    (hsort : (before ++ x :: after).Pairwise fun a b => FileName.le a b = true)
    (hnodup : (before ++ x :: after).Nodup) (hx : FileName.isScript x = true) :
    x ∉ after.map FileName.output := by
  intro hmem
  obtain ⟨y, hy, hout⟩ := List.mem_map.1 hmem
  have hle : FileName.le x y = true :=
    (List.pairwise_cons.1 (List.pairwise_append.1 hsort).2.1).1 y hy
  have hxy : x ≠ y := fun heq =>
    (List.nodup_cons.1 (List.nodup_append'.1 hnodup).2.1).1 (heq ▸ hy)
  have hself : FileName.output x = x := if_pos hx
  rcases output_eq_output (hself.trans hout.symm) hxy with ⟨hnot, -⟩ | ⟨-, rfl⟩
  · rw [hx] at hnot
    cases hnot
  · exact FileName.not_le_append y (by decide) hle

namespace Course

theorem pairwise_names (h : Course s F out plan C readme license q) :
    plan.names.Pairwise fun a b => FileName.le a b = true := by
  obtain ⟨l, -, hsort⟩ := h.sources
  exact hsort ▸ FileName.pairwise_sort _

/-- Every script is in the output under its own name, unless it has that of the entry. -/
theorem readText_script (h : Course s F out plan C readme license q) (hF : Ready s F m out)
    {source : Text × Text} (hsource : source ∈ plan.sources)
    (hscript : FileName.isScript source.1 = true) (hne : source.1 ≠ Entry.fileName) :
    q.disk.readText (Path.append s.outputPath source.1) =
      .ok (Wrapped.ofSource source.2).text := by
  obtain ⟨before, after, heq⟩ := List.append_of_mem hsource
  have hself : FileName.output source.1 = source.1 := if_pos hscript
  have hnames : plan.names = before.map Prod.fst ++ source.1 :: after.map Prod.fst := by
    rw [Plan.names, heq, List.map_append, List.map_cons]
  have hsort := h.pairwise_names
  have hnodup := (h.remembered hF).nodup_names
  rw [hnames] at hsort hnodup
  have hlast := not_mem_output_after hsort hnodup hscript
  rw [List.map_map] at hlast
  have hget := h.get?_script hF heq (hself.symm ▸ hlast) (hself.symm ▸ hne)
  rw [hself] at hget
  exact readText_of_find ((h.grown hF).find hget (by simp))

end Course

/-- The file that the export of a script loads. -/
def loaded (name : Text) : Text := FileName.stem name ++ FileName.scriptExtension

/-- What the output `out` of the disk `D` holds for the export of a script. -/
structure Exported (s : Settings) (D : Disk) (out : Location) (sources exports : List (Text × Text))
    (source : Text × Text) : Prop where
  field : (FileName.stem source.1, Entry.requireText (FileName.stem source.1)) ∈ exports
  /-- A script that ends in `.js` as it stands is loaded, unless it is called as the entry. -/
  exact : loaded source.1 = source.1 → source.1 ≠ Entry.fileName →
    D.readText (Path.append s.outputPath (loaded source.1)) =
      .ok (Wrapped.ofSource source.2).text
  /-- A script that ends in `.js` in another case keeps its name, and the file that is loaded is
  there only if it is the entry or made of another source. -/
  other : loaded source.1 ≠ source.1 →
    D.readText (Path.append s.outputPath source.1) = .ok (Wrapped.ofSource source.2).text ∧
    (loaded source.1 ∈ D.names out ↔ loaded source.1 = Entry.fileName ∨
      ∃ source' ∈ sources, source' ≠ source ∧ FileName.output source'.1 = loaded source.1)

theorem Course.exported (h : Course s F out plan C readme license q) (hF : Ready s F m out)
    {source : Text × Text} (hsource : source ∈ plan.sources)
    (hscript : FileName.isScript source.1 = true) :
    Exported s q.disk out plan.sources (Entry.fields plan.manifest.version? plan.names) source := by
  refine ⟨?_, fun hexact hne => ?_, fun hother => ?_⟩
  · have hname : source.1 ∈ plan.names := List.mem_map_of_mem hsource
    exact List.mem_cons_of_mem _ (List.mem_map.2 ⟨_, List.mem_filter.2 ⟨hname, hscript⟩, rfl⟩)
  · rw [hexact]
    exact h.readText_script hF hsource hscript hne
  have hne : source.1 ≠ Entry.fileName := by
    intro heq
    rw [heq] at hother
    exact hother (by decide)
  refine ⟨h.readText_script hF hsource hscript hne, ?_⟩
  have hnot (y : Text) (hy : FileName.isScript y = false) : loaded source.1 ≠ y := by
    rintro rfl
    rw [loaded, FileName.isScript_append] at hy
    cases hy
  have hself : FileName.output source.1 ≠ loaded source.1 := by
    rw [FileName.output, if_pos hscript]
    exact hother.symm
  rw [h.output_files hF ⟨hnot _ (by decide), hnot _ (by decide)⟩]
  constructor
  · rintro (hmem | hentry | hmanifest)
    · obtain ⟨name, hname, hout⟩ := List.mem_map.1 hmem
      obtain ⟨source', hsource', rfl⟩ := List.mem_map.1 hname
      exact .inr ⟨source', hsource', fun heq => hself (heq ▸ hout), hout⟩
    · exact .inl hentry
    · exact absurd hmanifest (hnot _ (by decide))
  · rintro (hentry | ⟨source', hsource', -, hout⟩)
    · exact .inr (.inl hentry)
    · exact .inl (List.mem_map.2 ⟨_, List.mem_map_of_mem hsource', hout⟩)

/-- After a build that succeeds, the entry exports every script that the report lists, and an export
finds its script if that ends in `.js` as it stands and is not called as the entry. -/
theorem exports_load (b : Builder) {d : Disk} (hs : b.settings.outputPath ≠ [])
    (hd : d.WellFormed) {report : Report} (hok : (b.build d).result = .ok report) :
    ∃ out sources entry exports,
      (b.build d).disk.find b.settings.outputPath = .ok (out, .directory) ∧
      report.transpiled.map Prod.fst = sources.map Prod.fst ∧
      SourcesRead b.settings (prepared b.settings d) out sources ∧
      (b.build d).disk.readText (Path.append b.settings.outputPath Entry.fileName) = .ok entry ∧
      Entry.exports? (report.entryHeader.getD []) entry = some exports ∧
      ∀ source ∈ sources, FileName.isScript source.1 = true →
        Exported b.settings (b.build d).disk out sources exports source := by
  obtain ⟨-, m, out, plan, C, readme, license, q, hF, h, rfl, hdisk⟩ := course_of_build hs hd hok
  rw [← hdisk]
  have hnames := (h.remembered hF).transpiled_names
  have hentry := (h.grown hF).find (h.get?_text hF plan.last?_entry) (by simp)
  refine ⟨out, plan.sources, plan.entry.2, _, (h.find_output hs hF).2, hnames, h.read,
    readText_of_find hentry, ?_, fun source hsource hscript => h.exported hF hsource hscript⟩
  rw [h.report_entryHeader]
  exact Entry.exports?_text ..

theorem exports_load_rootPackage :
    (rootBuilder.build rootPackage).disk.readText "/lib/a.js".toList =
      .ok (Wrapped.ofSource []).text ∧
    ∃ entry exports,
      (rootBuilder.build rootPackage).disk.readText "/lib/index.js".toList = .ok entry ∧
      Entry.exports? [] entry = some exports ∧
      ("a".toList, "require(\"./a\")".toList) ∈ exports := by
  have hreport : (rootBuilder.build rootPackage).result.toOption.map
      (fun report => (report.transpiled.map Prod.fst, report.entryHeader)) =
        some (["a.js".toList], none) := by decide +kernel
  obtain ⟨report, hok, hreport⟩ := exists_report hreport
  obtain ⟨hnames, hheader⟩ := Prod.mk.inj hreport
  obtain ⟨out, sources, entry, exports, -, hsources, hread, hentry, hexports, h⟩ :=
    exports_load rootBuilder rootBuilder_outputPath_ne_nil rootPackage_wellFormed hok
  rw [hnames] at hsources
  obtain ⟨⟨name, text⟩, rfl, rfl⟩ := List.map_eq_singleton_iff.1 hsources.symm
  have htext : (prepared rootBuilder.settings rootPackage).readText
      (Path.append rootBuilder.settings.sourcePath "a.js".toList) = .ok [] := by decide +kernel
  obtain rfl : [] = text := Except.ok.inj (htext.symm.trans (hread [] _ [] rfl))
  have ha := h _ (List.mem_singleton_self _) (by decide)
  rw [hheader] at hexports
  exact ⟨ha.exact (by decide) (by decide), entry, exports, hentry, hexports, ha.field⟩

/-- A package with a source called as the entry, and one that ends in `.js` in another case. -/
def unloadable : Disk :=
  ⟨[(["package.json".toList], .file (Bytes.ofText "{}".toList)),
    (["src".toList], .directory),
    (["src".toList, Entry.fileName], .file []),
    (["src".toList, "main.JS".toList], .file [])], by decide⟩

/-- Both are exported, but there is nothing for the one, and the entry itself for the other. Where
the output has no path, one script may be written over another through a link that was there. -/
theorem exports_of_unloadable : unloadable.WellFormed ∧
    (rootBuilder.build unloadable).result.toOption.map
      (fun report => report.transpiled.map Prod.fst) =
        some [Entry.fileName, "main.JS".toList] ∧
    ((rootBuilder.build unloadable).disk.readText "/lib/index.js".toList).toOption.bind
      (Entry.exports? []) = some [("version".toList, "undefined".toList),
        ("index".toList, "require(\"./index\")".toList),
        ("main".toList, "require(\"./main\")".toList)] ∧
    (rootBuilder.build unloadable).disk.readText "/lib/index.js".toList ≠
      .ok (Wrapped.ofSource []).text ∧
    (rootBuilder.build unloadable).disk.readText "/lib/main.js".toList = .error .noSuchFile ∧
    let d := innerPackage.put ["b.js".toList] (.link "a.js".toList)
    d.WellFormed ∧ (hereBuilder.build d).result.toOption.map
      (fun report => report.transpiled.map Prod.fst) = some ["a.js".toList, "b.js".toList] ∧
      (hereBuilder.build d).disk.readText
        (Path.append hereBuilder.settings.outputPath "a.js".toList) =
          .ok (Wrapped.ofSource "bb;".toList).text := by
  have hfind : (rootBuilder.build unloadable).disk.find "/lib/index.js".toList =
      .ok (["lib".toList, Entry.fileName], .file (Bytes.ofText
        (Entry.text [] none [Entry.fileName, "main.JS".toList]))) := by decide +kernel
  have hwrapped : Entry.text [] none [Entry.fileName, "main.JS".toList] ≠
      (Wrapped.ofSource []).text := by decide +kernel
  rw [readText_of_find hfind]
  refine ⟨by decide +kernel, by decide +kernel, ?_, fun heq => hwrapped (Except.ok.inj heq),
    by decide +kernel, ?_⟩
  · rw [Except.toOption, Option.bind_some, Entry.exports?_text]
    decide
  · intro d
    have hover : (hereBuilder.build d).disk.find
        (Path.append hereBuilder.settings.outputPath "a.js".toList) =
          .ok (["a.js".toList], .file (Bytes.ofText (Wrapped.ofSource "bb;".toList).text)) := by
      decide +kernel
    exact ⟨by decide +kernel, by decide +kernel, readText_of_find hover⟩

end ModulePack
