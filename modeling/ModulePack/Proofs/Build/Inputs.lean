import ModulePack.Proofs.Build.Remembered

/-!
# The inputs of a build

A build takes nothing away but what is below the directory that the path of its output leads to. So
it keeps its inputs, as long as they are not there (`inputs_kept`). It does not look whether they
are: sources that are also the output are gone before they are read (`sources_lost`).
-/

namespace ModulePack

open Disk ModulePack.Action

variable {s : Settings} {d e F : Disk} {l k : Location} {x : Text} {p : Path} {node : Node}

/-- The path leads along nothing that is below the directory of the output. -/
def AvoidsOutput (s : Settings) (d : Disk) (p : Path) : Prop :=
  ∀ l, d.find s.outputPath = .ok (l, .directory) →
    ∀ v ∈ d.visits maxLinks [] (steps p), isBelow l v = false

/-- A path that leads past the output leads to the same place after a build. -/
theorem Unharmed.find (h : Unharmed s d e) (hp : AvoidsOutput s d p)
    (hfind : d.find p = .ok (k, node)) : e.find p = .ok (k, node) := by
  obtain ⟨hloc, hk⟩ := find_eq_ok_iff.1 hfind
  rw [locate_of_allowed (allowed_of_locate hloc)] at hloc
  refine find_of_visits (fun v hv other hother => h v other (fun l hl => hp l hl v hv) hother) hfind ?_
  exact h k node (fun l hl => not_isBelow_of_walk (hp l hl) (by simp) hloc) hk

/-- What is listed as a source is no directory, or it could not have been read. -/
theorem Action.ListedSince.get?_ne_directory {sources : List (Text × Text)}
    (h : ListedSince s F sources) (hF : F.WellFormed)
    (hfind : F.find s.sourcePath = .ok (l, .directory)) (hx : x ∈ F.names l) :
    F.get? (l ++ [x]) ≠ some .directory := by
  intro hdir
  have hname := isFileName_of_mem_names hF hx
  obtain ⟨l', hfind', hnames⟩ := h.names
  obtain rfl := find_unique hfind hfind'
  obtain ⟨source, hsource, rfl⟩ : ∃ source ∈ sources, source.1 = x := by
    rw [← FileName.mem_sort, ← hnames] at hx
    exact List.mem_map.1 hx
  obtain ⟨e, hways, hread⟩ := h.read source hsource
  obtain ⟨m, hreach⟩ := reaches_of_find hfind
  have hdir' := hways.directory _ hdir
  obtain ⟨k, content, hfile⟩ := find_of_readText hread
  obtain ⟨hloc, hk⟩ := find_eq_ok_iff.1 hfile
  rw [(hreach.mono hways).locate_append hname (allowed_of_locate hloc),
    walk_singleton hname (by simp [hdir'])] at hloc
  rw [← Except.ok.inj hloc, hdir'] at hk
  cases hk

/-- The directory of the sources has the same entries when they are listed as before, unless it is
the output or its path leads through the output. -/
theorem Action.ListedSince.names_eq {sources : List (Text × Text)}
    (h : ListedSince s (prepared s d) sources) (hd : d.WellFormed)
    (hfind : d.find s.sourcePath = .ok (l, .directory)) (hpath : AvoidsOutput s d s.sourcePath)
    (hout : ∀ k, d.find s.outputPath = .ok (k, .directory) → k ≠ l) :
    sources.map Prod.fst = FileName.sort (d.names l) := by
  have hunharmed := unharmed_prepared (s := s) hd
  have hfind' := hunharmed.find hpath hfind
  have hbelow : ∀ x k, d.find s.outputPath = .ok (k, .directory) → isBelow k (l ++ [x]) = false := by
    intro x k hk
    by_contra hb
    rcases isBelow_concat_iff.1 (by simpa using hb) with heq | hb
    · exact hout k hk heq.symm
    · obtain ⟨hloc, -⟩ := find_eq_ok_iff.1 hfind
      rw [locate_of_allowed (allowed_of_locate hloc)] at hloc
      rw [not_isBelow_of_walk (hpath k hk) (by simp) hloc] at hb
      cases hb
  have hnames : (prepared s d).names l = d.names l := names_congr fun x => by
    cases hdx : d.get? (l ++ [x]) with
    | some node => exact hunharmed _ _ (hbelow x) hdx
    | none =>
      refine Option.eq_none_iff_forall_ne_some.2 fun node hnode => ?_
      have hcleared : (d.clear s.outputPath).2.get? (l ++ [x]) = none := by
        rw [(clear_frame hd s.outputPath).2.2 _ (hbelow x), hdx]
      obtain rfl := (made_prepared hd).new _ _ hnode hcleared
      exact h.get?_ne_directory (made_prepared hd).wf hfind' (mem_names.2 ⟨_, hnode⟩) hnode
  obtain ⟨l', hfind'', hsort⟩ := h.names
  obtain rfl := find_unique hfind' hfind''
  rw [hsort, hnames]

/-- Whether it succeeds or fails, a build whose output path is not empty keeps every file that is
not below the directory of its output, and every path that leads past there still reads what it did.
If a build succeeds, it has taken all that the directory of the sources had before, unless that is
the output. -/
theorem inputs_kept (b : Builder) {d : Disk} (hd : d.WellFormed) :
    (b.settings.outputPath ≠ [] →
      (∀ k content,
        (∀ l, d.find b.settings.outputPath = .ok (l, .directory) → isBelow l k = false) →
        d.get? k = some (.file content) → (b.build d).disk.get? k = some (.file content)) ∧
      ∀ p content, AvoidsOutput b.settings d p → d.readBytes p = .ok content →
        (b.build d).disk.readBytes p = .ok content) ∧
    ∀ report l, (b.build d).result = .ok report →
      d.find b.settings.sourcePath = .ok (l, .directory) →
      AvoidsOutput b.settings d b.settings.sourcePath →
      (∀ k, d.find b.settings.outputPath = .ok (k, .directory) → k ≠ l) →
      report.transpiled.map Prod.fst = FileName.sort (d.names l) := by
  refine ⟨fun hs => ⟨fun k content hk => unharmed_build hs hd k _ hk, fun p content hp hread => ?_⟩,
    fun report l hok hfind hpath hout => ?_⟩
  · obtain ⟨k, hfind⟩ := readBytes_eq_ok_iff.1 hread
    exact readBytes_eq_ok_iff.2 ⟨k, (unharmed_build hs hd).find hp hfind⟩
  · obtain ⟨plan, readme, license, r, h, rfl⟩ := remembered_of_build hok
    rw [h.transpiled_names, Plan.names, h.sources.names_eq hd hfind hpath hout]

theorem inputs_kept_rootPackage :
    (rootBuilder.build rootPackage).disk.readBytes "/src/a.js".toList = .ok [] ∧
    ∃ report, (rootBuilder.build rootPackage).result = .ok report ∧
      report.transpiled.map Prod.fst = ["a.js".toList] := by
  obtain ⟨hkept, hsources⟩ := inputs_kept rootBuilder rootPackage_wellFormed
  obtain ⟨-, hread⟩ := hkept rootBuilder_outputPath_ne_nil
  obtain ⟨report, hok, -⟩ := rootPackage_builds
  have hlib : rootPackage.find rootBuilder.settings.outputPath =
      .ok (["lib".toList], .directory) := by decide +kernel
  have hsrc : rootPackage.find rootBuilder.settings.sourcePath =
      .ok (["src".toList], .directory) := by decide +kernel
  have hout : ∀ l, rootPackage.find rootBuilder.settings.outputPath = .ok (l, .directory) →
      l = ["lib".toList] := fun l hl => find_unique hl hlib
  have hfile : AvoidsOutput rootBuilder.settings rootPackage "/src/a.js".toList := by
    intro l hl
    rw [hout l hl]
    decide +kernel
  have hpath : AvoidsOutput rootBuilder.settings rootPackage rootBuilder.settings.sourcePath :=
    fun l hl => by
      rw [hout l hl]
      decide +kernel
  have hnames : FileName.sort (rootPackage.names ["src".toList]) = ["a.js".toList] := by
    decide +kernel
  refine ⟨hread _ _ hfile (by decide +kernel), report, hok, ?_⟩
  rw [hsources report _ hok hsrc hpath fun k hk => by rw [hout k hk]; decide, hnames]

/-- With the sources as its output, an accepted build succeeds without any source, and all of them
are gone. Where the output has no path, the entry may be written to a source through a link that was
there. -/
theorem sources_lost :
    (let b : Builder := .new (rootBuilder.settings.set "src".toList .outputPath)
    rootPackage.WellFormed ∧ b.settings.validate = .ok () ∧
    rootPackage.list b.settings.sourcePath = .ok ["a.js".toList] ∧
    (b.build rootPackage).result.map (fun report => report.transpiled) = .ok [] ∧
    (b.build rootPackage).disk.readBytes (Path.append b.settings.sourcePath "a.js".toList) =
      .error .noSuchFile) ∧
    let d := innerPackage.put [Entry.fileName] (.link "pkg/src/a.js".toList)
    d.WellFormed ∧ (hereBuilder.build d).result.isOk = true ∧
    let p := Path.append hereBuilder.settings.sourcePath "a.js".toList
    d.readBytes p = .ok (Bytes.ofText "a;".toList) ∧
    (hereBuilder.build d).disk.readBytes p ≠ .ok (Bytes.ofText "a;".toList) := by
  decide +kernel

end ModulePack
