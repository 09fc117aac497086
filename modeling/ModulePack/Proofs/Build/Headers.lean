import ModulePack.Proofs.Build.Artifacts
import ModulePack.Proofs.Wrapper.Headers

/-!
# The header of the entry

A build gives its entry the header that all sources share, if it is not empty. What it remembers of
the sources is what a run of wrapping over their texts does (`Plan.header?_eq`), and `Hoisted` says
what this means for the report and the entry of a build that succeeds (`headers_hoisted`).
-/

namespace ModulePack

open Text Disk ModulePack.Action

variable {s : Settings} {F C : Disk} {m : Nat} {out : Location} {plan : Plan}
  {readme license : List Artifact} {q : Progress} {header : Text}

/-- What stands at the head of a wrapped text: its header and an empty line, if it has one, and the
prologue. -/
theorem Wrapper.prefix_wrap (header body : Text) :
    (if header = [] then [] else header ++ lineEnd ++ lineEnd) ++ prologue <+: wrap header body := by
  rw [wrap_eq]
  exact ⟨_, List.append_assoc ..⟩

/-- The entry has the header that all sources have, if there is one. -/
structure Hoisted (report : Report) (sources : List (Text × Text)) (entry : Text) : Prop where
  header_iff : ∀ header, report.entryHeader = some header ↔ sources ≠ [] ∧ header ≠ [] ∧
    ∀ source ∈ sources, ∃ rest, Header.extract? source.2 = some (header, rest)
  below : ∀ header, report.entryHeader = some header →
    header ++ lineEnd ++ lineEnd ++ Wrapper.prologue <+: entry
  bare : report.entryHeader = none → Wrapper.prologue <+: entry

namespace Plan

/-- The header of the entry is the one that the texts of the sources share. -/
theorem header?_eq (plan : Plan) : plan.header? =
    (Wrapping.new.addAll (plan.sources.map Prod.snd)).2.shared?.filter (· ≠ []) := by
  rw [Wrapping.shared?, Wrapping.headers_addAll_new, List.map_map]
  rfl

theorem header?_eq_some_iff : plan.header? = some header ↔ plan.sources ≠ [] ∧ header ≠ [] ∧
    ∀ source ∈ plan.sources, ∃ rest, Header.extract? source.2 = some (header, rest) := by
  rw [header?_eq, Option.filter_eq_some_iff, Wrapping.shared?_addAll, List.forall_mem_map, ne_eq,
    List.map_eq_nil_iff, decide_eq_true_iff]
  constructor
  · rintro ⟨⟨hsources, hall⟩, hne⟩
    exact ⟨hsources, hne, fun source h => (Wrapped.header_ofSource_eq_iff hne).1 (hall source h)⟩
  · rintro ⟨hsources, hne, hall⟩
    exact ⟨⟨hsources, fun source h => (Wrapped.header_ofSource_eq_iff hne).2 (hall source h)⟩, hne⟩

end Plan

namespace Course

theorem readText_entry (h : Course s F out plan C readme license q) (hF : Ready s F m out) :
    q.disk.readText (Path.append s.outputPath Entry.fileName) = .ok plan.entry.2 :=
  readText_of_find ((h.grown hF).find (h.get?_text hF plan.last?_entry) (by simp))

theorem hoisted (h : Course s F out plan C readme license q) :
    Hoisted q.records.report plan.sources plan.entry.2 := by
  have hentry : (if plan.header?.getD [] = [] then [] else
      plan.header?.getD [] ++ lineEnd ++ lineEnd) ++ Wrapper.prologue <+: plan.entry.2 :=
    Wrapper.prefix_wrap _ _
  refine ⟨fun header => ?_, fun header hsome => ?_, fun hnone => ?_⟩
  · rw [h.report_entryHeader, Plan.header?_eq_some_iff]
  · rw [h.report_entryHeader] at hsome
    rwa [hsome, Option.getD_some, if_neg (Plan.header?_eq_some_iff.1 hsome).2.1] at hentry
  · rw [h.report_entryHeader] at hnone
    rwa [hnone, Option.getD_none, if_pos rfl, List.nil_append] at hentry

end Course

/-- After a build that succeeds, the entry has the header that every source has, whether it is a
script or not, and none if there is no such header; then the entry begins with the prologue. The
headers of sources that are wrapped one after another are remembered in order, and the shared one is
that of them all. -/
theorem headers_hoisted (b : Builder) (d : Disk) (texts : List Text) :
    (∀ report, b.settings.outputPath ≠ [] → d.WellFormed → (b.build d).result = .ok report →
      ∃ out sources entry,
        (b.build d).disk.find b.settings.outputPath = .ok (out, .directory) ∧
        report.transpiled = sources.map (fun source => (source.1, FileName.output source.1)) ∧
        SourcesRead b.settings (prepared b.settings d) out sources ∧
        (b.build d).disk.readText (Path.append b.settings.outputPath Entry.fileName) = .ok entry ∧
        Hoisted report sources entry) ∧
    (Wrapping.new.addAll texts).2.headers = (Wrapping.new.addAll texts).1.map Wrapped.header ∧
    (Wrapping.new.addAll texts).2.headers =
      texts.map (fun text => ((Header.extract? text).map Prod.fst).getD []) ∧
    ∀ header, (Wrapping.new.addAll texts).2.shared? = some header ↔
      texts ≠ [] ∧ ∀ h ∈ (Wrapping.new.addAll texts).2.headers, h = header := by
  refine ⟨fun report hs hd hok => ?_, ?_, ?_, fun header => ?_⟩
  · obtain ⟨-, m, out, plan, C, readme, license, q, hF, h, rfl, hdisk⟩ :=
      course_of_build hs hd hok
    rw [← hdisk]
    exact ⟨out, plan.sources, plan.entry.2, (h.find_output hs hF).2,
      (h.remembered hF).report_transpiled, h.read, h.readText_entry hF, h.hoisted⟩
  · exact (Wrapping.headers_addAll ..).trans (List.nil_append _)
  · rw [Wrapping.headers_addAll_new]
    exact List.map_congr_left fun text _ => Wrapped.header_ofSource text
  · rw [Wrapping.shared?_addAll, Wrapping.headers_addAll_new, List.forall_mem_map]

/-- A package with two sources below the same header, one of them no script. -/
def notedPackage : Disk :=
  ⟨[(["package.json".toList], .file (Bytes.ofText "{}".toList)),
    (["src".toList], .directory),
    (["src".toList, "a.js".toList], .file (Bytes.ofText "/* Copyright */ a;".toList)),
    (["src".toList, "b".toList], .file (Bytes.ofText "\n/* Copyright */".toList))], by decide⟩

theorem headers_hoisted_notedPackage : notedPackage.WellFormed ∧
    ∃ report entry, (rootBuilder.build notedPackage).result = .ok report ∧
      report.transpiled.map Prod.fst = ["a.js".toList, "b".toList] ∧
      report.entryHeader = some "/* Copyright */".toList ∧
      (rootBuilder.build notedPackage).disk.readText "/lib/index.js".toList = .ok entry ∧
      "/* Copyright */\n\n".toList ++ Wrapper.prologue <+: entry := by
  have hwf : notedPackage.WellFormed := by decide +kernel
  have hreport : (rootBuilder.build notedPackage).result.toOption.map
      (fun report => (report.transpiled.map Prod.fst, report.entryHeader)) =
        some (["a.js".toList, "b".toList], some "/* Copyright */".toList) := by decide +kernel
  obtain ⟨report, hok, hreport⟩ := exists_report hreport
  obtain ⟨hnames, hheader⟩ := Prod.mk.inj hreport
  obtain ⟨out, sources, entry, -, -, -, hentry, h⟩ :=
    (headers_hoisted rootBuilder notedPackage []).1 report rootBuilder_outputPath_ne_nil hwf hok
  exact ⟨hwf, report, entry, hok, hnames, hheader, hentry, h.below _ hheader⟩

/-- Where the output has no path, `README.md` may be copied over the entry through a link that was
there. -/
theorem entry_lost_without_path :
    let d := innerPackage.put [readmeName] (.link Entry.fileName)
    d.WellFormed ∧ (hereBuilder.build d).result.toOption.map (fun report =>
        (report.transpiled.map Prod.fst, report.entryHeader)) =
          some (["a.js".toList, "b.js".toList], none) ∧
      (hereBuilder.build d).disk.readText
        (Path.append hereBuilder.settings.outputPath Entry.fileName) = .ok "# a".toList ∧
      ¬Wrapper.prologue <+: "# a".toList := by
  decide +kernel

end ModulePack
