import ModulePack.Proofs.Build.Artifacts
import ModulePack.Proofs.Build.Inputs
import ModulePack.Proofs.FileName
import ModulePack.Proofs.Text.Slices

/-!
# Output names

Names have the same output name only if one of them is the other with `.js` added
(`output_eq_output_iff`), so what is in the directory of the sources decides whether a report tells
its artifacts apart by their names (`output_names`). The extension is looked for a number of bytes
before the end of a name, and none of the cuts there fails (`hasExtensionAt?_eq`, `stemAt?_eq`).
-/

namespace ModulePack

open Disk ModulePack.Action

variable {s : Settings} {F : Disk} {plan : Plan} {readme license : List Artifact} {r : Records}
  {a b : Text}

/-! ### The extension, by its place -/

namespace Text

theorem utf8Size_toLower (c : Char) : c.toLower.utf8Size = c.utf8Size := by
  unfold Char.toLower
  split
  · rename_i h
    have hle : c.val.toNat ≤ 90 := UInt32.le_iff_toNat_le.1 h.2
    have hlower : (c.val + ('a'.val - 'A'.val)).toNat ≤ 127 := by
      rw [UInt32.toNat_add]
      exact Nat.le_trans (Nat.mod_le _ _) (Nat.le_trans (Nat.add_le_add_right hle 32) (by decide))
    rw [Char.utf8Size_eq_one_iff.2 (UInt32.le_iff_toNat_le.2 hlower),
      Char.utf8Size_eq_one_iff.2 (UInt32.le_iff_toNat_le.2 (Nat.le_trans hle (by decide)))]
  · rfl

theorem byteCount_asciiLower (s : Text) : (asciiLower s).byteCount = s.byteCount := by
  induction s with
  | nil => rfl
  | cons c s ih =>
    rw [asciiLower, List.map_cons, byteCount_cons, byteCount_cons, utf8Size_toLower, ← asciiLower,
      ih]

end Text

namespace FileName

/-- Where the extension begins in a name that has one, counted in bytes. -/
def cutAt (name : Text) : Nat := name.byteCount - scriptExtension.byteCount

/-- Whether the last bytes of a name are the extension of scripts. There is no answer if these are
asked for where no character begins. -/
def hasExtensionAt? (name : Text) : Option Bool :=
  if scriptExtension.byteCount ≤ name.byteCount ∧ Text.isBoundary (cutAt name) name = true then
    (Text.dropBytes? (cutAt name) name).map fun t => decide (Text.asciiLower t = scriptExtension)
  else some false

/-- The bytes of a name before its extension, or all of them. -/
def stemAt? (name : Text) : Option Text :=
  match hasExtensionAt? name with
  | none => none
  | some true => Text.takeBytes? (cutAt name) name
  | some false => some name

theorem cutAt_append {t : Text} (ht : IsExtension t) (base : Text) :
    cutAt (base ++ t) = base.byteCount := by
  rw [cutAt, Text.byteCount_append, ← Text.byteCount_asciiLower t, ht, Nat.add_sub_cancel]

theorem hasExtensionAt?_eq (name : Text) : hasExtensionAt? name = some (isScript name) := by
  rw [hasExtensionAt?]
  split
  · rename_i h
    obtain ⟨t, ht⟩ := Text.isBoundary_iff.1 h.2
    obtain ⟨base, rfl, hbase⟩ := Text.dropBytes?_eq_some_iff.1 ht
    rw [ht, Option.map_some, Option.some_inj, Bool.eq_iff_iff, decide_eq_true_iff]
    refine ⟨fun hext => IsExtension.isScript hext base, fun hscript => ?_⟩
    -- what is left behind as many bytes is the same
    obtain ⟨t', ht', heq⟩ := isScript_iff.1 hscript
    have hcut : Text.dropBytes? (cutAt (base ++ t)) (base ++ t) = some t' := by
      rw [heq, cutAt_append ht', Text.dropBytes?_append]
    rw [ht] at hcut
    exact Option.some.inj hcut ▸ ht'
  · rename_i h
    rw [Option.some_inj, eq_comm, Bool.eq_false_iff]
    refine fun hscript => h ?_
    obtain ⟨t, ht, heq⟩ := isScript_iff.1 hscript
    rw [heq, cutAt_append ht]
    refine ⟨?_, Text.isBoundary_iff.2 ⟨t, Text.dropBytes?_append _ t⟩⟩
    rw [Text.byteCount_append, ← Text.byteCount_asciiLower t, ht]
    exact Nat.le_add_left _ _

theorem stemAt?_eq (name : Text) : stemAt? name = some (stem name) := by
  rw [stemAt?, hasExtensionAt?_eq]
  cases hscript : isScript name with
  | true =>
    obtain ⟨t, ht, heq⟩ := isScript_iff.1 hscript
    show Text.takeBytes? (cutAt name) name = _
    rw [heq, cutAt_append ht, Text.takeBytes?_append, stem_append ht]
  | false =>
    rw [isScript, Option.isSome_eq_false_iff, Option.isNone_iff_eq_none] at hscript
    rw [stem, hscript, Option.getD_none]

/-! ### Names that clash -/

theorem output_eq_output_iff (hab : a ≠ b) : output a = output b ↔
    isScript a = false ∧ b = a ++ scriptExtension ∨
      isScript b = false ∧ a = b ++ scriptExtension := by
  have hscript {a : Text} (ha : isScript a = false) : output a = output (a ++ scriptExtension) := by
    rw [output_of_not_isScript ha, output, if_pos (isScript_append a)]
  constructor
  · exact fun h => output_eq_output h hab
  · rintro (⟨ha, rfl⟩ | ⟨hb, rfl⟩)
    · exact hscript ha
    · exact (hscript hb).symm

theorem output_eq_entry_iff (a : Text) :
    output a = Entry.fileName ↔ a = "index".toList ∨ a = Entry.fileName := by
  have h := @entry_mem_output_iff [a]
  simpa [eq_comm] using h

/-- Only a name with the extension is an output name. -/
theorem output_ne (h : isScript b = false) (a : Text) : output a ≠ b := by
  rintro rfl
  rw [isScript_output] at h
  cases h

end FileName

theorem Remembered.nodup_artifacts_iff_noClash (h : Remembered s F plan readme license r)
    {names : List Text} (hnames : plan.names = FileName.sort names) :
    (r.report.artifacts.map Artifact.name).Nodup ↔ NoClash names := by
  have hmem (x : Text) : x ∈ plan.names ↔ x ∈ names := by rw [hnames, FileName.mem_sort]
  rw [h.nodup_artifacts_iff, Plan.nodup_files_iff h.nodup_names]
  constructor
  · rintro ⟨hstem, hentry, hscript⟩
    refine ⟨mt (hmem _).2 hstem, mt (hmem _).2 hentry, fun x hx hs => ?_⟩
    exact mt (hmem _).2 (hscript x ((hmem x).2 hx) hs)
  · rintro ⟨hstem, hentry, hscript⟩
    refine ⟨mt (hmem _).1 hstem, mt (hmem _).1 hentry, fun x hx hs => ?_⟩
    exact mt (hmem _).1 (hscript x ((hmem x).1 hx) hs)

/-- Two names have the same output name exactly if one has no extension and the other is it with the
extension. An output name has the extension, and it is that of the entry for two names only. So the
artifacts of a build have different names exactly if the directory of the sources, as it was listed,
has neither of those two and no such pair; it is listed as it was before the build, unless it is the
output or its path leads through the output. No cut at an extension fails. -/
theorem output_names (b : Builder) {d : Disk} (hd : d.WellFormed) :
    (∀ x y, x ≠ y → (FileName.output x = FileName.output y ↔
      FileName.isScript x = false ∧ y = x ++ FileName.scriptExtension ∨
        FileName.isScript y = false ∧ x = y ++ FileName.scriptExtension)) ∧
    (∀ x, FileName.isScript (FileName.output x) = true ∧
      (FileName.output x = Entry.fileName ↔ x = "index".toList ∨ x = "index.js".toList) ∧
      FileName.output x ∉ [Manifest.fileName, readmeName, licenseName]) ∧
    (∀ x, FileName.hasExtensionAt? x = some (FileName.isScript x) ∧
      FileName.stemAt? x = some (FileName.stem x)) ∧
    ∀ report, (b.build d).result = .ok report →
      (∃ names, (prepared b.settings d).list b.settings.sourcePath = .ok names ∧
        ((report.artifacts.map Artifact.name).Nodup ↔ NoClash names)) ∧
      ∀ l, d.find b.settings.sourcePath = .ok (l, .directory) →
        AvoidsOutput b.settings d b.settings.sourcePath →
        (∀ k, d.find b.settings.outputPath = .ok (k, .directory) → k ≠ l) →
        ((report.artifacts.map Artifact.name).Nodup ↔ NoClash (d.names l)) := by
  refine ⟨fun x y hxy => FileName.output_eq_output_iff hxy,
    fun x => ⟨FileName.isScript_output x, FileName.output_eq_entry_iff x, ?_⟩,
    fun x => ⟨FileName.hasExtensionAt?_eq x, FileName.stemAt?_eq x⟩, fun report hok => ?_⟩
  · intro hmem
    have hnone : ∀ y ∈ [Manifest.fileName, readmeName, licenseName],
        FileName.isScript y = false := by decide
    exact FileName.output_ne (hnone _ hmem) x rfl
  obtain ⟨plan, readme, license, r, h, rfl⟩ := remembered_of_build hok
  constructor
  · obtain ⟨l, hfind, hnames⟩ := h.sources.names
    refine ⟨(prepared b.settings d).names l, ?_, h.nodup_artifacts_iff_noClash hnames⟩
    rw [Disk.list, hfind]
    rfl
  · intro l hfind hpath hout
    exact h.nodup_artifacts_iff_noClash (h.sources.names_eq hd hfind hpath hout)

/-- A package with two sources whose output names are the same. -/
def twins : Disk :=
  ⟨[(["package.json".toList], .file (Bytes.ofText "{}".toList)),
    (["src".toList], .directory),
    (["src".toList, "a".toList], .file []),
    (["src".toList, "a.js".toList], .file [])], by decide⟩

theorem output_names_twins :
    (∃ report, (rootBuilder.build rootPackage).result = .ok report ∧
      (report.artifacts.map Artifact.name).Nodup) ∧
    ∃ report, (rootBuilder.build twins).result = .ok report ∧
      ¬(report.artifacts.map Artifact.name).Nodup := by
  constructor
  · obtain ⟨report, hok, -⟩ := rootPackage_builds
    obtain ⟨-, -, -, hbuild⟩ := output_names rootBuilder rootPackage_wellFormed
    obtain ⟨⟨names, hlist, hiff⟩, -⟩ := hbuild report hok
    have hnames : (prepared rootBuilder.settings rootPackage).list rootBuilder.settings.sourcePath =
        .ok ["a.js".toList] := by decide +kernel
    obtain rfl := Except.ok.inj (hlist.symm.trans hnames)
    exact ⟨report, hok, hiff.2 ⟨by decide, by decide, by decide⟩⟩
  · have hreport : (rootBuilder.build twins).result.toOption.map (fun report => report.transpiled) =
        some [("a".toList, "a.js".toList), ("a.js".toList, "a.js".toList)] := by decide +kernel
    obtain ⟨report, hok, -⟩ := exists_report hreport
    obtain ⟨-, -, -, hbuild⟩ := output_names rootBuilder (d := twins) (by decide +kernel)
    obtain ⟨⟨names, hlist, hiff⟩, -⟩ := hbuild report hok
    have hnames : (prepared rootBuilder.settings twins).list rootBuilder.settings.sourcePath =
        .ok ["a".toList, "a.js".toList] := by decide +kernel
    obtain rfl := Except.ok.inj (hlist.symm.trans hnames)
    exact ⟨report, hok, fun h => (hiff.1 h).script "a".toList (by decide) (by decide) (by decide)⟩

end ModulePack
