import Mathlib.Data.List.Count
import ModulePack.Proofs.Build.Headers

/-!
# Line ends of what is generated

Bodies are split at all line ends and put together with one, headers are kept as they are. So a
generated script has, below its header, no line end but the one that is written (`LinesBelow`), and
as many carriage returns as its header has: `line_ends` says so of wrapped texts, of entries, and of
the entry of a build. So the ends of lines may be mixed (`mixed_line_ends`).
-/

namespace ModulePack

open Text Disk Wrapper ModulePack.Action

variable {header text : Text}

/-- The header stands as it is at the start of the text, if there is one, with an empty line behind
it. No carriage return is below, and the last line has its end. -/
structure LinesBelow (header text : Text) : Prop where
  below : ∃ rest, text = (if header = [] then [] else header ++ lineEnd ++ lineEnd) ++ rest ∧
    '\r' ∉ rest
  ends : lineEnd <:+ text

theorem LinesBelow.count_eq (h : LinesBelow header text) : text.count '\r' = header.count '\r' := by
  obtain ⟨rest, rfl, hrest⟩ := h.below
  rw [List.count_append, List.count_eq_zero.2 hrest, Nat.add_zero]
  split
  · rename_i hnil
    rw [hnil]
  · simp [lineEnd]

theorem LinesBelow.mem_iff (h : LinesBelow header text) : '\r' ∈ text ↔ '\r' ∈ header := by
  rw [← List.count_pos_iff, h.count_eq, List.count_pos_iff]

theorem Wrapper.carriage_not_mem_body (body : Text) : '\r' ∉ unlines (bodyLines body) := by
  intro hmem
  rcases mem_join hmem with hend | ⟨line, hline, hmem⟩
  · exact absurd hend (by decide)
  · exact (isLine_of_mem_bodyLines hline).2 hmem

theorem Wrapper.linesBelow_wrap (header body : Text) : LinesBelow header (wrap header body) := by
  refine ⟨⟨_, wrap_eq header body, ?_⟩, List.suffix_append ..⟩
  simp [isLine_prologue.2, carriage_not_mem_body body, isLine_epilogue.2]

/-- Below its header, a wrapped text has one kind of line end, with which it ends, and as many
carriage returns as the header, which is the one of its source. An entry has them from the header
that it is given: in a build whose output path is not empty, that of its sources. -/
theorem line_ends :
    (∀ (w : Wrapping) (source : Text),
      (w.add source).1.header = ((Header.extract? source).map Prod.fst).getD [] ∧
      LinesBelow (w.add source).1.header (w.add source).1.text ∧
      ('\r' ∈ (w.add source).1.text ↔ '\r' ∈ (w.add source).1.header)) ∧
    (∀ header version names, LinesBelow header (Entry.text header version names) ∧
      ('\r' ∈ Entry.text header version names ↔ '\r' ∈ header)) ∧
    ∀ (b : Builder) (d : Disk) (report : Report), b.settings.outputPath ≠ [] → d.WellFormed →
      (b.build d).result = .ok report → ∃ entry,
        (b.build d).disk.readText (Path.append b.settings.outputPath Entry.fileName) = .ok entry ∧
        LinesBelow (report.entryHeader.getD []) entry ∧
        ('\r' ∈ entry ↔ ∃ header, report.entryHeader = some header ∧ '\r' ∈ header) := by
  refine ⟨fun w source => ?_, fun header version names => ?_, fun b d report hs hd hok => ?_⟩
  · have hlines := linesBelow_wrap (Wrapped.split source).1 (Wrapped.split source).2
    exact ⟨Wrapped.header_ofSource source, hlines, hlines.mem_iff⟩
  · have hlines := linesBelow_wrap header (Entry.body version names)
    exact ⟨hlines, hlines.mem_iff⟩
  · obtain ⟨-, m, out, plan, C, readme, license, q, hF, h, rfl, hdisk⟩ := course_of_build hs hd hok
    have hlines : LinesBelow (q.records.report.entryHeader.getD []) plan.entry.2 :=
      h.report_entryHeader ▸ linesBelow_wrap ..
    refine ⟨plan.entry.2, hdisk ▸ h.readText_entry hF, hlines, hlines.mem_iff.trans ?_⟩
    cases q.records.report.entryHeader <;> simp

/-- A source with the line ends of another platform. -/
def crlfSource : Text := "/* Copyright\r\n */\r\na;\r\n".toList

/-- A package with that source. -/
def crlfPackage : Disk :=
  ⟨[(["package.json".toList], .file (Bytes.ofText "{}".toList)),
    (["src".toList], .directory),
    (["src".toList, "a.js".toList], .file (Bytes.ofText crlfSource))], by decide⟩

theorem line_ends_crlfPackage : crlfPackage.WellFormed ∧ ∃ report entry,
    (rootBuilder.build crlfPackage).result = .ok report ∧
    report.entryHeader = some "/* Copyright\r\n */".toList ∧
    (rootBuilder.build crlfPackage).disk.readText "/lib/index.js".toList = .ok entry ∧
    entry.count '\r' = 1 := by
  have hwf : crlfPackage.WellFormed := by decide +kernel
  have hreport : (rootBuilder.build crlfPackage).result.toOption.map Report.entryHeader =
      some (some "/* Copyright\r\n */".toList) := by decide +kernel
  obtain ⟨report, hok, hheader⟩ := exists_report hreport
  obtain ⟨entry, hentry, hlines, -⟩ := line_ends.2.2 rootBuilder crlfPackage report
    rootBuilder_outputPath_ne_nil hwf hok
  refine ⟨hwf, report, entry, hok, hheader, hentry, ?_⟩
  rw [hlines.count_eq, hheader]
  decide

/-- When it has been wrapped, the ends of its lines are mixed, and so are those of an entry that has
its header. -/
theorem mixed_line_ends :
    (¬∀ source, lineEnd <:+ (Wrapping.new.add source).1.text ∧
      '\r' ∉ (Wrapping.new.add source).1.text) ∧
    ∃ header, (Wrapping.new.addAll [crlfSource]).2.shared? = some header ∧
      '\r' ∈ Entry.text header none ["a.js".toList] := by
  refine ⟨fun h => ?_, "/* Copyright\r\n */".toList, by decide +kernel, by decide +kernel⟩
  exact (h crlfSource).2 (by decide +kernel)

end ModulePack
