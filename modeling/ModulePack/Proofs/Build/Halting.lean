import ModulePack.Proofs.Build.Interrupted

/-!
# Builds that stop half way

A build that fails at a step leaves in its output what the steps before have written, and of that
step at most a part of what it writes. `Halted` says for each step what has been done and what has
failed, on a medium that may give out, and `build_halts` that every build which fails after `prepare`
ends so, if its output has a path.
-/

namespace ModulePack

open Disk ModulePack.Action

variable {w : Medium} {s : Settings} {d D F : Disk} {m : Nat} {out : Location} {b : Builder}
  {step : Step} {failure : Failure} {files : List (Text × Text)} {next : Option (Text × Text)}
  {x : Text}

/-! ### What has been done -/

/-- All sources have been listed and read in build order. -/
structure SourcesListed (s : Settings) (F : Disk) (out : Location)
    (sources : List (Text × Text)) : Prop where
  names : ∃ l, F.find s.sourcePath = .ok (l, .directory) ∧
    FileName.sort (F.names l) = sources.map Prod.fst
  read : SourcesRead s F out sources

/-- The plan is made of the sources and the manifest that have been read. -/
structure Planned (s : Settings) (F : Disk) (out : Location) (plan : Plan) : Prop where
  sources : SourcesListed s F out plan.sources
  manifest : ManifestRead s F out plan.scripts plan.manifest

/-- A build that began to write to the empty directory `out` of `F` stops at a step with a failure.
The given texts have been written by then, one after the other, and the next one, if any, may have
been begun. The disk is the last one. -/
inductive Halted (w : Medium) (s : Settings) (F : Disk) (out : Location) :
    Step → Failure → List (Text × Text) → Option (Text × Text) → Disk → Prop
  /-- The sources cannot be listed. -/
  | listing {fault : Fault}
      (h : w.answer .list s.sourcePath F (F.list s.sourcePath) = .error fault) :
      Halted w s F out .transpile (.io s.sourcePath fault) [] none F
  /-- One of the sources cannot be read, or its script not be written. -/
  | source {l : Location} {done : List (Text × Text)} {x : Text} {rest : List Text}
      {failure : Failure} {next : Option (Text × Text)} {D : Disk}
      (hfind : F.find s.sourcePath = .ok (l, .directory))
      (hsort : FileName.sort (F.names l) = done.map Prod.fst ++ x :: rest)
      (hread : SourcesRead s F out done) (hfails : SourceFails w s F out done x failure next D) :
      Halted w s F out .transpile failure (done.map script) next D
  /-- There is no manifest to generate the entry from. -/
  | unusable {sources : List (Text × Text)} {failure : Failure} (h : SourcesListed s F out sources)
      (hunusable : UnusableOn w (F.putFiles out (sources.map script))
        (Path.append s.packagePath Manifest.fileName) failure) :
      Halted w s F out .generateEntry failure (sources.map script) none
        (F.putFiles out (sources.map script))
  | entry {plan : Plan} {failure : Failure} {D : Disk} (h : Planned s F out plan)
      (hwritten : Written w s F out plan.scripts plan.entry D) :
      Halted w s F out .generateEntry failure plan.scripts (some plan.entry) D
  | manifest {plan : Plan} {failure : Failure} {D : Disk} (h : Planned s F out plan)
      (hwritten : Written w s F out (plan.scripts ++ [plan.entry]) (plan.package s) D) :
      Halted w s F out .generateManifest failure (plan.scripts ++ [plan.entry])
        (some (plan.package s)) D
  | readme {plan : Plan} {failure : Failure} {D : Disk} (h : Planned s F out plan)
      (hpart : PartCopied w s out readmeName (F.putFiles out (plan.files s)) D) :
      Halted w s F out .copyReadme failure (plan.files s) none D
  | license {plan : Plan} {failure : Failure} {C D : Disk} {copied : List Artifact}
      (h : Planned s F out plan)
      (hreadme : CopiedOn w s readmeName (F.putFiles out (plan.files s)) C copied)
      (hadds : Adds (Under (out ++ [readmeName])) (F.putFiles out (plan.files s)) C)
      (hpart : PartCopied w s out licenseName C D) :
      Halted w s F out .copyLicense failure (plan.files s) none D

/-! ### All steps -/

/-- Where steps stop, if they do. -/
def Stops (halted : Step → Failure → Progress → Prop)
    (end_ : Option (Step × Failure) × Progress) : Prop :=
  ∀ step failure q, end_ = (some (step, failure), q) → halted step failure q

theorem stops_cons {take : Step → Action Unit} {steps : List Step} {pre mid : Progress → Prop}
    {halted : Step → Failure → Progress → Prop}
    (hok : Spec pre (take step) (fun _ => mid) fun _ => True)
    (hfail : Fails pre (take step) (halted step))
    (h' : ∀ q, mid q → Stops halted (takeStepsWith take steps q)) :
    ∀ p, pre p → Stops halted (takeStepsWith take (step :: steps) p) := by
  intro p hp
  have hstep := hok p hp
  rw [takeStepsWith]
  split
  · rename_i q heq
    rw [heq] at hstep
    exact h' q hstep
  · rename_i failure q heq
    rintro _ _ _ ⟨⟩
    exact hfail p hp failure q heq

/-- A build that stops later than at `prepare` has prepared its output, and nothing is new but below
it. -/
def StopsLate (w : Medium) (s : Settings) (d : Disk) (step : Step) (failure : Failure)
    (q : Progress) : Prop :=
  step = .clean ∨ step = .prepare ∨ Prepares s d ∧ ∃ m out files next,
    Ready s (prepared s d) m out ∧ Halted w s (prepared s d) out step failure files next q.disk ∧
    Within out (prepared s d) q.disk

theorem Disk.Adds.within (h : Adds (Under (out ++ [x])) d D) : Within out d D := by
  refine h.mono fun k node hunder => ?_
  obtain ⟨r, rfl⟩ := hunder.1
  rw [List.append_assoc]
  exact isBelow_append_cons r

theorem CopiedOn.grown {C : Disk} {artifacts : List Artifact}
    (h : CopiedOn w s x d C artifacts) (hd : Grown s F m out d) (hx : IsFileName x)
    (hfresh : d.get? (out ++ [x]) = none) :
    Grown s F m out C ∧ Adds (Under (out ++ [x])) d C := by
  cases h with
  | unseen => exact ⟨hd, .refl hd.wf⟩
  | seen h => exact ⟨h.grown hd hx hfresh, h.adds hd hx hfresh⟩

/-- The copies begin with everything else written, and the second with the first one made. -/
theorem copySteps_stops {plan : Plan} {r : Records} {q : Progress} (hprep : Prepares s d)
    (hF : Ready s (prepared s d) m out) (hplan : Planned s (prepared s d) out plan)
    (h : Stage s (prepared s d) out (plan.files s) r q) :
    Stops (StopsLate w s d) (takeStepsWith (takeOn w s) [.copyReadme, .copyLicense] q) := by
  have hgrown := grown_putFiles hF h.allowed
  have hfresh := hF.fresh (s := s) plan (.inl rfl)
  have hreadme := isFileName_readme
  have hfiles := h.within hF
  rw [h.disk] at hfiles
  refine stops_cons at_copyOptionalOn ((fails_copyOptionalOn hgrown hreadme hfresh).mono ?_)
    (fun q ⟨readme, hcopied, hr⟩ => ?_) q ⟨h.disk, h.records⟩
  · exact fun failure q hpart => .inr (.inr ⟨hprep, m, out, _, _, hF, .readme hplan hpart,
      hfiles.trans hpart.adds.within⟩)
  obtain ⟨hgrown', hcopies⟩ := hcopied.grown hgrown hreadme hfresh
  have hother : ∀ node, ¬Under (out ++ [readmeName]) (out ++ [licenseName]) node :=
    fun node hunder => readme_ne_license hunder.name_eq
  have hfresh' : q.disk.get? (out ++ [licenseName]) = none := by
    rw [hcopies.get?_eq hother, hF.fresh _ (.inr rfl)]
  refine stops_cons at_copyOptionalOn
    ((fails_copyOptionalOn hgrown' isFileName_license hfresh').mono ?_)
    (fun _ _ _ _ _ heq => by cases heq) q ⟨rfl, hr⟩
  exact fun failure q hpart => .inr (.inr ⟨hprep, m, out, _, _, hF,
    .license hplan hcopied hcopies hpart, (hfiles.trans hcopies.within).trans hpart.adds.within⟩)

theorem takeSteps_stops (hs : s.outputPath ≠ []) (hd : d.WellFormed) (log : Log) :
    Stops (StopsLate w s d) (takeStepsWith (takeOn w s) Step.all ⟨d, log, .empty⟩) := by
  refine stops_cons (agrees_clean.spec spec_clean) (fun _ _ _ _ _ => .inl rfl) (fun q hq => ?_) _
    ⟨rfl, rfl⟩
  refine stops_cons (agrees_prepare.spec spec_prepare) (fun _ _ _ _ _ => .inr (.inl rfl))
    (fun q' hq' => ?_) q hq.1
  have hprep : Prepares s d := ⟨hq.2, hq'.2⟩
  obtain ⟨m, out, hF⟩ := ready_prepared hs hd hprep
  have hstage : Stage s (prepared s d) out [] .empty q' := ⟨hq'.1.disk, hq'.1.records, by simp⟩
  have hlate {step failure q files next}
      (h : Halted w s (prepared s d) out step failure files next q.disk)
      (hwithin : Within out (prepared s d) q.disk) : StopsLate w s d step failure q :=
    .inr (.inr ⟨hprep, m, out, files, next, hF, h, hwithin⟩)
  refine stops_cons (agrees_transpile.spec (spec_transpile hF)) ((fails_transpileOn hF).mono ?_)
    (fun q₁ ⟨sources, h₁, ⟨l, hfind, hsort⟩, hread⟩ => ?_) q' hstage
  · rintro failure q ⟨hwithin, ⟨hdisk, fault, rfl, hlist⟩ | ⟨l, done, x, rest, next, hfind, hsort,
      hread, hfails⟩⟩
    · exact hlate (by rw [hdisk]; exact .listing hlist) hwithin
    · exact hlate (.source hfind hsort hread hfails) hwithin
  have hlisted : SourcesListed s (prepared s d) out sources := ⟨⟨l, hfind, hsort.symm⟩, hread⟩
  refine stops_cons (agrees_generateEntry.spec (spec_generateEntry hF))
    ((fails_generateEntryOn hF).mono ?_) (fun q₂ ⟨manifest, h₂, hmanifest⟩ => ?_) q₁ h₁
  · rintro failure q ⟨hwithin, ⟨hdisk, hunusable⟩ | ⟨manifest, hmanifest, hwritten⟩⟩
    · exact hlate (by rw [hdisk]; exact .unusable hlisted hunusable) hwithin
    · have hplan : Planned s (prepared s d) out ⟨sources, manifest⟩ := ⟨hlisted, hmanifest⟩
      exact hlate (.entry hplan hwritten) hwithin
  have hplan : Planned s (prepared s d) out ⟨sources, manifest⟩ := ⟨hlisted, hmanifest⟩
  exact stops_cons (agrees_generateManifest.spec (spec_generateManifest hF ⟨sources, manifest⟩))
    ((fails_generateManifestOn hF ⟨sources, manifest⟩).mono
      fun _ _ h => hlate (.manifest hplan h.2) h.1)
    (fun _ h₃ => copySteps_stops hprep hF hplan h₃) q₂ h₂

/-! ### What is left -/

/-- The optional files of which there may be a copy, or a part of one, when a build fails at a
step. -/
def Step.copies : Step → List Text
  | .copyReadme => [readmeName]
  | .copyLicense => [readmeName, licenseName]
  | _ => []

/-- Under a name in the output stands the last of the texts written to it. If it is the name of the
text that is written next, there may be the first bytes of that, if the medium has cut it off. -/
def Left (w : Medium) (s : Settings) (F : Disk) (out : Location) (files : List (Text × Text))
    (next : Option (Text × Text)) (D : Disk) (x : Text) : Prop :=
  D.get? (out ++ [x]) = (last? x files).map (fun text => .file (Bytes.ofText text)) ∨
  ∃ text n fault, next = some (x, text) ∧
    w.cuts (Path.append s.outputPath x) (F.putFiles out files) = some (n, fault) ∧
    D.get? (out ++ [x]) = some (.file ((Bytes.ofText text).take n))

/-- A build has failed at a step, and the directory `out` of its output holds what has been written by
then and nothing else, but for copies of optional files. -/
structure CleanCut (w : Medium) (s : Settings) (F : Disk) (out : Location) (step : Step)
    (failure : Failure) (files : List (Text × Text)) (next : Option (Text × Text))
    (D : Disk) : Prop where
  wf : D.WellFormed
  halted : Halted w s F out step failure files next D
  root : D.find s.outputPath = .ok (out, .directory)
  entries : ∀ x, x ∉ step.copies → Left w s F out files next D x
  outside : ∀ k, isBelow out k = false → D.get? k = F.get? k

theorem get?_putFiles_of_ready (hF : Ready s F m out) (files : List (Text × Text)) (x : Text) :
    (F.putFiles out files).get? (out ++ [x]) =
      (last? x files).map fun text => .file (Bytes.ofText text) := by
  rw [get?_putFiles, hF.empty _ (by simp)]
  cases last? x files <;> rfl

theorem left_putFiles (hF : Ready s F m out) (files : List (Text × Text)) (x : Text) :
    Left w s F out files next (F.putFiles out files) x :=
  .inl (get?_putFiles_of_ready hF files x)

theorem Action.Written.left {file : Text × Text} (h : Written w s F out files file D)
    (hF : Ready s F m out) (x : Text) : Left w s F out files (some file) D x := by
  cases h with
  | none => exact left_putFiles hF files x
  | cut hcut =>
    obtain ⟨y, text⟩ := file
    by_cases hx : y = x
    · subst hx
      exact .inr ⟨text, _, _, rfl, hcut, by simp [get?_put]⟩
    · rw [Left, get?_put, if_neg (by simpa using hx)]
      exact .inl (get?_putFiles_of_ready hF files x)

theorem Left.of_get?_eq {C : Disk} (h : Left w s F out files next C x)
    (heq : D.get? (out ++ [x]) = C.get? (out ++ [x])) : Left w s F out files next D x := by
  rwa [Left, heq]

theorem Halted.left (h : Halted w s F out step failure files next D) (hF : Ready s F m out)
    (hx : x ∉ step.copies) : Left w s F out files next D x := by
  have hother {y : Text} {d e : Disk} (hadds : Adds (Under (out ++ [y])) d e) (hxy : x ≠ y) :
      e.get? (out ++ [x]) = d.get? (out ++ [x]) :=
    hadds.get?_eq fun _ hunder => hxy hunder.name_eq.symm
  cases h with
  | listing => exact left_putFiles hF [] x
  | source hfind hsort hread hfails =>
    cases hfails with
    | unread => exact left_putFiles hF _ x
    | unwritten hread hwritten => exact hwritten.left hF x
  | unusable => exact left_putFiles hF _ x
  | entry h hwritten => exact hwritten.left hF x
  | manifest h hwritten => exact hwritten.left hF x
  | readme h hpart =>
    exact (left_putFiles hF _ x).of_get?_eq (hother hpart.adds (by simpa [Step.copies] using hx))
  | license h hreadme hadds hpart =>
    simp only [Step.copies, List.mem_cons, List.not_mem_nil, or_false, not_or] at hx
    exact (left_putFiles hF _ x).of_get?_eq
      ((hother hpart.adds hx.2).trans (hother hadds hx.1))

/-- What is not written next is there as a whole, or not at all. -/
theorem CleanCut.get?_eq (h : CleanCut w s F out step failure files next D)
    (hx : x ∉ step.copies) (hnext : ∀ text, next ≠ some (x, text)) :
    D.get? (out ++ [x]) = (last? x files).map fun text => .file (Bytes.ofText text) :=
  (h.entries x hx).resolve_right fun ⟨text, _, _, heq, _⟩ => hnext text heq

theorem not_mem_scripts (h : FileName.isScript x = false) (sources : List (Text × Text)) :
    x ∉ (sources.map script).map Prod.fst := by
  rw [List.map_map]
  intro hmem
  obtain ⟨source, -, rfl⟩ := List.mem_map.1 hmem
  have hscript : FileName.isScript (FileName.output source.1) = true := FileName.isScript_output _
  rw [show (Prod.fst ∘ script) source = FileName.output source.1 from rfl, hscript] at h
  cases h

/-- The files of the steps after the entry are no scripts. -/
theorem CleanCut.get?_of_generateEntry
    (h : CleanCut w s F out .generateEntry failure files next D)
    (hx : x ∈ [Manifest.fileName, readmeName, licenseName]) : D.get? (out ++ [x]) = none := by
  have hnot : FileName.isScript x = false := by
    simp only [List.mem_cons, List.not_mem_nil, or_false] at hx
    rcases hx with rfl | rfl | rfl <;> decide
  have hentry : x ≠ Entry.fileName := by
    rintro rfl
    exact absurd hnot (by decide)
  have hfiles : x ∉ files.map Prod.fst ∧ ∀ text, next ≠ some (x, text) := by
    cases h.halted with
    | unusable => exact ⟨not_mem_scripts hnot _, by simp⟩
    | entry =>
      refine ⟨not_mem_scripts hnot _, fun text heq => hentry ?_⟩
      exact (congrArg Prod.fst (Option.some.inj heq)).symm
  rw [h.get?_eq (by simp [Step.copies]) hfiles.2, last?_eq_none_iff.2 hfiles.1]
  rfl

theorem CleanCut.planned_of_copyReadme
    (h : CleanCut w s F out .copyReadme failure files next D) :
    D.get? (out ++ [licenseName]) = none ∧ ∃ plan, Planned s F out plan ∧
      D.get? (out ++ [Entry.fileName]) = some (.file (Bytes.ofText plan.entry.2)) ∧
      D.get? (out ++ [Manifest.fileName]) = some (.file (Bytes.ofText (plan.package s).2)) := by
  have hget := fun x hx => h.get?_eq (x := x) hx
  cases h.halted with
  | @readme plan _ _ hplan hpart =>
    have hfiles : ∀ x, x ≠ readmeName → D.get? (out ++ [x]) =
        (last? x (plan.files s)).map fun text => .file (Bytes.ofText text) :=
      fun x hx => hget x (by simpa [Step.copies] using hx) (by simp)
    refine ⟨?_, plan, hplan, ?_, ?_⟩
    · rw [hfiles _ readme_ne_license.symm, last?_eq_none_iff.2 (plan.not_mem_files (.inr rfl))]
      rfl
    · rw [hfiles _ (by decide), plan.last?_entry]
      rfl
    · rw [hfiles _ (by decide), plan.last?_package]
      rfl

theorem takeSteps_of_failed (h : (b.buildOn w d).builder.state = .failed (some step)) :
    ∃ failure q, takeStepsWith (takeOn w b.settings) Step.all
        ⟨d, announcement b.settings, .empty⟩ = (some (step, failure), q) ∧
      (b.buildOn w d).result = .error failure ∧ (b.buildOn w d).disk = q.disk := by
  unfold Builder.buildOn at h ⊢
  cases hv : b.settings.validate with
  | error failure => simp [hv, Builder.build] at h
  | ok u =>
    rw [hv] at h
    dsimp only at h ⊢
    rcases hend : takeStepsWith (takeOn w b.settings) Step.all
      ⟨d, announcement b.settings, .empty⟩ with ⟨_ | ⟨step', failure⟩, q⟩
    · rw [hend] at h
      cases h
    · rw [hend] at h
      obtain rfl : step' = step := by simpa [Builder.conclude] using h
      exact ⟨failure, q, rfl, rfl, rfl⟩

/-- A build that has a path for its output and fails later than at `prepare` leaves a clean cut,
whatever its medium does: what the steps before have written, at most a part of what the step itself
writes, and nothing of any later step. A sound medium is one that does nothing of its own. -/
theorem build_halts (b : Builder) {d : Disk} (hs : b.settings.outputPath ≠ [])
    (hd : d.WellFormed) :
    b.buildOn .sound d = b.build d ∧
    ∀ (w : Medium) (step : Step), (b.buildOn w d).builder.state = .failed (some step) →
      step ≠ .clean → step ≠ .prepare →
      ∃ out failure files next, (b.buildOn w d).result = .error failure ∧
        (prepared b.settings d).find b.settings.outputPath = .ok (out, .directory) ∧
        (prepared b.settings d).NothingBelow out ∧
        CleanCut w b.settings (prepared b.settings d) out step failure files next
          (b.buildOn w d).disk ∧
        (step = .generateEntry → ∀ x ∈ [Manifest.fileName, readmeName, licenseName],
          (b.buildOn w d).disk.get? (out ++ [x]) = none) ∧
        (step = .copyReadme → (b.buildOn w d).disk.get? (out ++ [licenseName]) = none ∧
          ∃ plan, Planned b.settings (prepared b.settings d) out plan ∧
            (b.buildOn w d).disk.get? (out ++ [Entry.fileName]) =
              some (.file (Bytes.ofText plan.entry.2)) ∧
            (b.buildOn w d).disk.get? (out ++ [Manifest.fileName]) =
              some (.file (Bytes.ofText (plan.package b.settings).2))) := by
  refine ⟨buildOn_sound b d, fun w step hstate hclean hprepare => ?_⟩
  obtain ⟨failure, q, hsteps, hresult, hdisk⟩ := takeSteps_of_failed hstate
  have hstops := takeSteps_stops hs hd (announcement b.settings) _ _ _ hsteps
  obtain ⟨hprep, m, out, files, next, hF, hhalted, hwithin⟩ :=
    (hstops.resolve_left hclean).resolve_left hprepare
  have hallowed : Allowed b.settings.outputPath :=
    allowed_of_makeDirectories (clear_frame hd _).2.1 _ hs hprep.2
  have hfind := hF.reaches.find hF.wf hallowed
  rw [hdisk]
  generalize q.disk = D at hhalted hwithin ⊢
  have hcut : CleanCut w b.settings (prepared b.settings d) out step failure files next D :=
    ⟨hwithin.wf, hhalted, find_of_le hwithin.le hfind, fun x hx => hhalted.left hF hx,
      fun k hk => hwithin.get?_eq fun _ hbelow => by rw [hk] at hbelow; cases hbelow⟩
  refine ⟨out, failure, files, next, hresult, hfind, hF.empty, hcut, ?_, ?_⟩
  · rintro rfl x hx
    exact hcut.get?_of_generateEntry hx
  · rintro rfl
    exact hcut.planned_of_copyReadme

/-- The package at the root, where the second of three sources is a directory. -/
def unreadable : Disk :=
  ⟨[(["LICENSE".toList], .file []),
    (["package.json".toList], .file (Bytes.ofText "{}".toList)),
    (["src".toList], .directory),
    (["src".toList, "a".toList], .file []),
    (["src".toList, "b".toList], .directory),
    (["src".toList, "c".toList], .file [])], by decide⟩

theorem build_halts_unreadable :
    (rootBuilder.build unreadable).disk.names ["lib".toList] = ["a.js".toList] ∧
    ∃ out failure files next, (rootBuilder.build unreadable).result = .error failure ∧
      CleanCut .sound rootBuilder.settings (prepared rootBuilder.settings unreadable) out .transpile
        failure files next (rootBuilder.build unreadable).disk := by
  have hwf : unreadable.WellFormed := by decide +kernel
  have hstate : (rootBuilder.build unreadable).builder.state = .failed (some .transpile) := by
    decide +kernel
  obtain ⟨hsound, hhalts⟩ := build_halts rootBuilder rootBuilder_outputPath_ne_nil hwf
  have hcut := hhalts .sound .transpile
  rw [hsound] at hcut
  obtain ⟨out, failure, files, next, hresult, -, -, hcut, -, -⟩ :=
    hcut hstate (by decide) (by decide)
  exact ⟨by decide +kernel, out, failure, files, next, hresult, hcut⟩

/-- A medium with room for four more bytes when the second script is written. -/
def full : Medium :=
  { Medium.sound with
    cuts := fun p _ => if p = "/lib/b.js".toList then
      some (4, .other "No space left on device (os error 28)".toList) else none }

/-- The package at the root, with two sources. -/
def twoSources : Disk :=
  ⟨[(["package.json".toList], .file (Bytes.ofText "{}".toList)),
    (["src".toList], .directory),
    (["src".toList, "a.js".toList], .file []),
    (["src".toList, "b.js".toList], .file [])], by decide⟩

/-- A script that is cut off is there although its source has failed. Where the output has no path,
nothing is cleared, and what was there stays beside the scripts. -/
theorem halts_uncleanly :
    (twoSources.WellFormed ∧
      (rootBuilder.buildOn full twoSources).builder.state = .failed (some .transpile) ∧
      (rootBuilder.buildOn full twoSources).disk.names ["lib".toList] =
        ["a.js".toList, "b.js".toList] ∧
      (rootBuilder.buildOn full twoSources).disk.readText "/lib/b.js".toList =
        .ok (Wrapper.prologue.take 4)) ∧
    let d := (innerPackage.put ["old.js".toList] (.file [])).put
      ["pkg".toList, "src".toList, "c.js".toList] .directory
    d.WellFormed ∧ (hereBuilder.build d).builder.state = .failed (some .transpile) ∧
      (hereBuilder.build d).disk.names [] =
        ["a.js".toList, "b.js".toList, "old.js".toList, "pkg".toList] := by
  decide +kernel

end ModulePack
