import ModulePack.Proofs.Build.Steps

/-!
# Old output

A build reads nothing before its output has been emptied. So what was in the output has no effect,
neither on the result nor on the disk, and the same build once more changes nothing
(`build_repeats`). Only settings that are refused leave the output as it was, and only an output
without a path is not emptied (`refused_keeps`).
-/

namespace ModulePack

open Disk ModulePack.Action

variable {s : Settings} {d e F C : Disk} {m : Nat} {out l k here : Location} {b : Builder}
  {report : Report} {plan : Plan} {readme license : List Artifact} {q : Progress} {x : Text}
  {xs rest : List Text} {p : Path}

/-! ### Directories without a link on the way -/

/-- The path leads to the directory `l`, and none of its components is a link. -/
structure IsRealDirectory (d : Disk) (p : Path) (l : Location) : Prop where
  find : d.find p = .ok (l, .directory)
  walk : d.walk .follow 0 [] (steps p) = .ok l

theorem eq_append_of_walk_zero (hxs : ∀ x ∈ xs, Path.IsName x) (hrest : rest = [] ∨ rest = [[]])
    (h : d.walk .follow 0 here (xs ++ rest) = .ok l) : l = here ++ xs := by
  induction xs generalizing here with
  | nil =>
    rcases hrest with rfl | rfl
    · simpa [eq_comm] using h
    · rw [List.nil_append, walk_stay rfl] at h
      simpa [eq_comm] using h
  | cons x xs ih =>
    have hx := hxs x (by simp)
    have hstep : IsEntryStep x := ⟨by simp [isStay, hx.ne_nil, hx.ne_here], hx.ne_up⟩
    rw [List.cons_append] at h
    rw [walk_entry hstep (short_of_walk hstep h).1 (by simp), walkEntry] at h
    split at h
    · split at h
      · rename_i hnil
        obtain ⟨rfl, -⟩ := List.append_eq_nil_iff.1 hnil
        exact (Except.ok.inj h).symm
      · cases h
    · simp only [reduceCtorEq, and_false, if_false] at h
      cases h
    · rw [ih (fun y hy => hxs y (by simp [hy])) h]
      simp
    · split at h
      · rename_i hnil
        obtain ⟨rfl, -⟩ := List.append_eq_nil_iff.1 hnil
        exact (Except.ok.inj h).symm
      · cases h

/-- The names of a normal path that leads through no link are the location, behind steps up. -/
theorem exists_names_of_walk_zero (h : d.walk .follow 0 [] (steps (Path.normalize p)) = .ok l) :
    ∃ ups, Path.names (Path.normalize p) = List.replicate ups ['.', '.'] ++ l := by
  obtain ⟨absolute, spot, hproper, heq⟩ := Path.exists_place_normalize p
  have hnames := Path.names_render hproper
  rw [← heq, Path.Place.pieces] at hnames
  obtain ⟨rest, hrest, hsteps⟩ : ∃ rest, (rest = [] ∨ rest = [[]]) ∧
      steps (Path.normalize p) = Path.names (Path.normalize p) ++ rest := by
    rcases steps_eq (Path.normalize p) with h | h
    · exact ⟨[], .inl rfl, by simpa using h⟩
    · exact ⟨[[]], .inr rfl, h⟩
  have hups : ∀ n (ys : List Text), d.walk .follow 0 [] (List.replicate n ['.', '.'] ++ ys) =
      d.walk .follow 0 [] ys := by
    intro n ys
    induction n with
    | zero => rfl
    | succ n ih => rw [List.replicate_succ, List.cons_append, walk_up]; exact ih
  rw [hsteps, hnames, List.append_assoc, hups] at h
  have hl := eq_append_of_walk_zero (fun x hx => hproper.name x (by simpa using hx)) hrest h
  exact ⟨spot.ups, by rw [hnames, hl, List.nil_append]⟩

theorem IsRealDirectory.clear (h : IsRealDirectory d s.outputPath l) (hd : d.WellFormed)
    (hok : (d.clear s.outputPath).1 = .ok ()) :
    d.clear s.outputPath = (.ok (), d.removeBelow l) := by
  obtain ⟨-, hwf, hframe⟩ := clear_frame hd s.outputPath
  have hdir : (d.clear s.outputPath).2.get? l = some .directory := by
    rw [hframe l fun k hk => ?_, (find_eq_ok_iff.1 h.find).2]
    obtain rfl := find_unique h.find hk
    simp
  obtain ⟨ups, hnames⟩ := exists_names_of_walk_zero h.walk
  have hreach : (d.clear s.outputPath).2.Reaches s.outputPath maxLinks l := by
    rw [Reaches, Settings.outputPath, Path.resolve, hnames]
    exact (passes_ups _ _ _).append (passes_location hwf hdir _)
  exact Prod.ext hok (clear_eq_removeBelow hd hok (hreach.find hwf (allowed_of_find h.find)))

/-! ### Builds from the same disk -/

/-- What is done after the output has been made. -/
def writingSteps : List Step :=
  [.transpile, .generateEntry, .generateManifest, .copyReadme, .copyLicense]

theorem clean_eq (s : Settings) (d : Disk) (log : Log) (r : Records) :
    clean s ⟨d, log, r⟩ = ofExcept (d.clear s.outputPath).1
      ⟨(d.clear s.outputPath).2, log ++ [⟨.debug, "Cleaning ".toList ++ s.outputPath⟩], r⟩ := rfl

theorem prepare_eq (s : Settings) (d : Disk) (log : Log) (r : Records) :
    prepare s ⟨d, log, r⟩ = ask s.outputPath (d.makeDirectories s.outputPath).1
      ⟨(d.makeDirectories s.outputPath).2, log, r⟩ := rfl

/-- Of a builder only its settings count, and of a disk only what `clean` leaves of it. -/
theorem build_congr {b' : Builder} (hs : b'.settings = b.settings)
    (hv : b.settings.validate = .ok ())
    (h : d.clear b.settings.outputPath = e.clear b.settings.outputPath) :
    b'.build d = b.build e := by
  have hsteps : ∀ log r, takeSteps b.settings Step.all ⟨d, log, r⟩ =
      takeSteps b.settings Step.all ⟨e, log, r⟩ := by
    intro log r
    rw [Step.all, takeSteps, takeSteps, take, clean_eq, clean_eq, h]
  simp only [Builder.build, hs, hv, hsteps]

theorem takeSteps_cons {step : Step} {steps : List Step} {p p' : Progress}
    (h : take s step p = .ok () p') : takeSteps s (step :: steps) p = takeSteps s steps p' := by
  rw [takeSteps, h]

theorem takeSteps_of_prepares (h : Prepares s d) (log : Log) :
    takeSteps s Step.all ⟨d, log, .empty⟩ = takeSteps s writingSteps
      ⟨prepared s d, log ++ [⟨.debug, "Cleaning ".toList ++ s.outputPath⟩], .empty⟩ := by
  have hclean : take s .clean ⟨d, log, .empty⟩ = .ok () ⟨(d.clear s.outputPath).2,
      log ++ [⟨.debug, "Cleaning ".toList ++ s.outputPath⟩], .empty⟩ := by
    rw [take, clean_eq, h.1]
    rfl
  have hprepare : ∀ log r, take s .prepare ⟨(d.clear s.outputPath).2, log, r⟩ =
      .ok () ⟨prepared s d, log, r⟩ := by
    intro log r
    rw [take, prepare_eq, h.2]
    rfl
  rw [Step.all, takeSteps_cons hclean, takeSteps_cons (hprepare _ _), writingSteps]

theorem build_eq_of_prepared {b' : Builder} (hs : b'.settings = b.settings)
    (hv : b.settings.validate = .ok ()) (hd : Prepares b.settings d) (he : Prepares b.settings e)
    (h : prepared b.settings d = prepared b.settings e) : b'.build d = b.build e := by
  simp only [Builder.build, hs, hv, takeSteps_of_prepares hd, takeSteps_of_prepares he, h]

/-- After a build that has succeeded, the first two steps lead back to where they led before. -/
theorem Course.prepared_eq (hs : s.outputPath ≠ [])
    (h : Course s (prepared s d) out plan C readme license q)
    (hF : Ready s (prepared s d) m out) :
    Prepares s q.disk ∧ prepared s q.disk = prepared s d := by
  have hgrown := h.grown hF
  have hremoved : q.disk.removeBelow out = prepared s d := ext_get? fun k => by
    rw [get?_removeBelow]
    split
    · rename_i hb
      exact (hF.empty k hb).symm
    · rename_i hb
      exact hgrown.same k (by simpa using hb)
  have hfind := (h.find_output hs hF).1
  have hclear : q.disk.clear s.outputPath = (.ok (), prepared s d) := by
    rw [← hremoved]
    exact clear_of_reaches hgrown.wf (by rw [hremoved]; exact hfind) hgrown.allowed
  have hmake := makeDirectories_of_find hF.wf hfind
  constructor
  · rw [Prepares, hclear]
    exact ⟨rfl, by rw [hmake]⟩
  · rw [prepared, hclear, hmake]

theorem build_again {b' : Builder} (hb : b'.settings = b.settings)
    (hs : b.settings.outputPath ≠ []) (hd : d.WellFormed) (hok : (b.build d).result = .ok report) :
    b'.build (b.build d).disk = b.build d := by
  obtain ⟨hv, -⟩ := takeSteps_of_build hok
  obtain ⟨hprep, m, out, plan, C, readme, license, q, hF, h, -, hdisk⟩ := course_of_build hs hd hok
  obtain ⟨hagain, heq⟩ := h.prepared_eq hs hF
  rw [← hdisk]
  exact build_eq_of_prepared hb hv hagain hprep heq

theorem settings_build (b : Builder) (d : Disk) : (b.build d).builder.settings = b.settings := by
  unfold Builder.build
  split
  · rfl
  · split <;> rfl

theorem build_refused {failure : Failure} (h : b.settings.validate = .error failure) :
    (b.build d).result = .error failure ∧ (b.build d).disk = d ∧
      (b.build d).builder = (b.build e).builder ∧ (b.build d).log = (b.build e).log := by
  simp [Builder.build, h]

theorem IsRealDirectory.clear_congr (hd : IsRealDirectory d s.outputPath l)
    (he : IsRealDirectory e s.outputPath l) (hdw : d.WellFormed) (hew : e.WellFormed)
    (hdok : (d.clear s.outputPath).1 = .ok ()) (heok : (e.clear s.outputPath).1 = .ok ())
    (h : ∀ k, isBelow l k = false → d.get? k = e.get? k) :
    d.clear s.outputPath = e.clear s.outputPath := by
  have hremoved : d.removeBelow l = e.removeBelow l := ext_get? fun k => by
    rw [get?_removeBelow, get?_removeBelow]
    split
    · rfl
    · rename_i hb
      exact h k (by simpa using hb)
  rw [hd.clear hdw hdok, he.clear hew heok, hremoved]

/-- What was in the output has no effect on an accepted build, and repeating a build that has
succeeded changes nothing, neither on the disk nor in what the builder says. -/
theorem build_repeats (b : Builder) :
    (∀ d e l, d.WellFormed → e.WellFormed → IsRealDirectory d b.settings.outputPath l →
      IsRealDirectory e b.settings.outputPath l → (d.clear b.settings.outputPath).1 = .ok () →
      (e.clear b.settings.outputPath).1 = .ok () →
      (∀ k, isBelow l k = false → d.get? k = e.get? k) →
      (b.settings.validate = .ok () → b.build d = b.build e) ∧
      (∀ failure, b.settings.validate = .error failure →
        (b.build d).result = .error failure ∧ (b.build e).result = .error failure ∧
        (b.build d).builder = (b.build e).builder ∧ (b.build d).log = (b.build e).log ∧
        (b.build d).disk = d ∧ (b.build e).disk = e)) ∧
    (b.settings.outputPath ≠ [] → ∀ d report, d.WellFormed → (b.build d).result = .ok report →
      b.build (b.build d).disk = b.build d ∧
      (b.build d).builder.build (b.build d).disk = b.build d) := by
  refine ⟨fun d e l hdw hew hd he hdok heok h => ⟨fun hv => ?_, fun failure hv => ?_⟩,
    fun hs d report hd hok =>
      ⟨build_again rfl hs hd hok, build_again (settings_build b d) hs hd hok⟩⟩
  · exact build_congr rfl hv (hd.clear_congr he hdw hew hdok heok h)
  · obtain ⟨hresult, hdisk, hbuilder, hlog⟩ := build_refused (d := d) (e := e) hv
    obtain ⟨hresult', hdisk', -, -⟩ := build_refused (d := e) (e := d) hv
    exact ⟨hresult, hresult', hbuilder, hlog, hdisk, hdisk'⟩

theorem build_repeats_rootPackage :
    rootBuilder.build rootPackage = rootBuilder.build (rootPackage.removeBelow ["lib".toList]) ∧
    rootBuilder.build (rootBuilder.build rootPackage).disk = rootBuilder.build rootPackage := by
  obtain ⟨hold, hagain⟩ := build_repeats rootBuilder
  have hwf := rootPackage_wellFormed
  have hreal : IsRealDirectory rootPackage rootBuilder.settings.outputPath ["lib".toList] :=
    ⟨by decide +kernel, by decide +kernel⟩
  have hreal' : IsRealDirectory (rootPackage.removeBelow ["lib".toList])
      rootBuilder.settings.outputPath ["lib".toList] := ⟨by decide +kernel, by decide +kernel⟩
  obtain ⟨report, hok, -⟩ := rootPackage_builds
  refine ⟨(hold _ _ _ hwf (hwf.removeBelow _) hreal hreal' (by decide +kernel) (by decide +kernel)
    fun k hk => ?_).1 (by decide +kernel), (hagain rootBuilder_outputPath_ne_nil _ report hwf hok).1⟩
  rw [get?_removeBelow, if_neg (ne_true_of_eq_false hk)]

/-- Settings without a directory for the sources are refused, and the stale file stays. Where the
output has no path, a link that was there may lead among the sources, and a second build takes what
the first one has written. -/
theorem refused_keeps :
    (let b : Builder := .new (rootBuilder.settings.set [] .sourcePath)
    let e := rootPackage.removeBelow ["lib".toList]
    rootPackage.WellFormed ∧ e.WellFormed ∧
    IsRealDirectory rootPackage b.settings.outputPath ["lib".toList] ∧
    IsRealDirectory e b.settings.outputPath ["lib".toList] ∧
    (rootPackage.clear b.settings.outputPath).1 = .ok () ∧
    (e.clear b.settings.outputPath).1 = .ok () ∧
    (∀ k, isBelow ["lib".toList] k = false → rootPackage.get? k = e.get? k) ∧
    (b.build rootPackage).disk ≠ (b.build e).disk) ∧
    let d := innerPackage.put [Manifest.fileName] (.link "pkg/src/c.js".toList)
    d.WellFormed ∧ (hereBuilder.build d).result.isOk = true ∧
    (hereBuilder.build (hereBuilder.build d).disk).result ≠ (hereBuilder.build d).result := by
  refine ⟨⟨by decide +kernel, by decide +kernel, ⟨by decide +kernel, by decide +kernel⟩,
    ⟨by decide +kernel, by decide +kernel⟩, by decide +kernel, by decide +kernel, fun k hk => ?_,
    fun h => ?_⟩, by decide +kernel, by decide +kernel, fun h => ?_⟩
  · rw [get?_removeBelow, if_neg (ne_true_of_eq_false hk)]
  · have hstale := congrArg (·.get? ["lib".toList, "old.js".toList]) h
    revert hstale
    decide +kernel
  · have hnames := congrArg (fun result => result.toOption.map Report.transpiled) h
    revert hnames
    decide +kernel

end ModulePack
