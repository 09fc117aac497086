import ModulePack.Proofs.Build.Remembered
import ModulePack.Proofs.Build.States

/-!
# Copies of what a link leads to

A link to a file is copied as the file is. A link to a directory is followed when the copy begins,
but not when what is there is listed: it is refused, and nothing has been copied
(`Disk.copyListed_of_linkedDirectory`). So the build of a package whose readme or license is such a
link fails at that step (`copies_of_links`).
-/

namespace ModulePack

open Disk ModulePack.Action

variable {s : Settings} {d e : Disk} {l : Location} {node : Node} {x : Text} {p : Progress}
  {link original target : Path} {listing : Listing}

namespace Disk

/-- Two paths lead to the same place, the first of them as the path of a link. -/
structure Linked (d : Disk) (link original : Path) (l : Location) (node : Node) : Prop where
  find_link : d.find link = .ok (l, node)
  find_original : d.find original = .ok (l, node)
  isLink : d.isLink link = true

theorem copyFile_congr (h : d.find link = d.find original) (target : Path) :
    d.copyFile link target = d.copyFile original target := by
  rw [copyFile, copyFile, h]

/-- Copies of what is no directory are the same, but that a failure names the path that was
given. -/
theorem Linked.copy_file (h : d.Linked link original l node) (hnode : node ≠ .directory)
    (listing : Listing) (target : Path) : ∃ (answer : Except Fault Nat) (e : Disk),
      d.copyListed listing link target = (answer.mapError (.io link), e) ∧
      d.copyListed listing original target = (answer.mapError (.io original), e) := by
  have hcontent : ∀ path, d.find path = .ok (l, node) →
      d.copyListed listing path target = d.copyContent path target := by
    intro path hpath
    rw [copyListed, hpath]
    cases node with
    | directory => exact absurd rfl hnode
    | _ => rfl
  rw [hcontent link h.find_link, hcontent original h.find_original, copyContent, copyContent,
    copyFile_congr (h.find_link.trans h.find_original.symm)]
  cases d.copyFile original target with
  | ok copied => exact ⟨.ok copied.1, copied.2, rfl, rfl⟩
  | error fault => exact ⟨.error fault, d, rfl, rfl⟩

theorem copyListed_of_linkedDirectory (hfind : d.find link = .ok (l, .directory))
    (hlink : d.isLink link = true) (listing : Listing) (target : Path) :
    d.copyListed listing link target = (.error (.io link .notAFile), d) := by
  rw [copyListed, hfind]
  exact if_pos hlink

theorem Linked.copy_eq_iff (h : d.Linked link original l node) {count : Nat}
    (hok : (d.copyListed listing original target).1 = .ok count) :
    d.copyListed listing link target = d.copyListed listing original target ↔
      node ≠ .directory := by
  constructor
  · rintro heq rfl
    rw [← heq, copyListed_of_linkedDirectory h.find_link h.isLink] at hok
    cases hok
  · intro hnode
    obtain ⟨answer, e, hlink, horiginal⟩ := h.copy_file hnode listing target
    rw [horiginal] at hok
    cases answer with
    | error fault => cases hok
    | ok copied => rw [hlink, horiginal]; rfl

end Disk

namespace Action

theorem copyOptional_of_linkedDirectory
    (hfind : p.disk.find (Path.append s.packagePath x) = .ok (l, .directory))
    (hlink : p.disk.isLink (Path.append s.packagePath x) = true) :
    ∃ q, copyOptional s x p = .error (.io (Path.append s.packagePath x) .notAFile) q ∧
      q.disk = p.disk := by
  have hexists : p.disk.exists? (Path.append s.packagePath x) = true := by
    rw [exists?, hfind]
    rfl
  have hcopy : p.disk.copy (Path.append s.packagePath x) (Path.append s.outputPath x) =
      (.error (.io (Path.append s.packagePath x) .notAFile), p.disk) :=
    copyListed_of_linkedDirectory hfind hlink names _
  let logged : Progress := { p with log := p.log ++ [⟨.info, "Copying ".toList ++ x⟩] }
  have hdisk : Action.disk logged = .ok p.disk logged := rfl
  refine ⟨logged, ?_, rfl⟩
  refine (bind_of_ok (q := logged) rfl).trans ((bind_of_ok hdisk).trans ?_)
  rw [if_pos hexists]
  refine (bind_of_ok hdisk).trans ?_
  rw [hcopy]
  exact (bind_of_ok (q := logged) rfl).trans (bind_of_error rfl)

end Action

/-- The steps that copy something if it is there, and its name. -/
def optionalCopies : List (Step × Text) := [(.copyReadme, readmeName), (.copyLicense, licenseName)]

theorem take_of_mem_optionalCopies {step : Step} (h : (step, x) ∈ optionalCopies) :
    Action.take s step = copyOptional s x := by
  rcases List.mem_pair.1 h with h | h <;> cases h <;> rfl

theorem build_of_linkedDirectory {b : Builder} {step : Step} (hcopy : (step, x) ∈ optionalCopies)
    (hv : b.settings.validate = .ok ())
    (hbefore : Succeeds b.settings step.before (start b.settings d) p)
    (hfind : p.disk.find (Path.append b.settings.packagePath x) = .ok (l, .directory))
    (hlink : p.disk.isLink (Path.append b.settings.packagePath x) = true) :
    (b.build d).result = .error (.io (Path.append b.settings.packagePath x) .notAFile) ∧
      (b.build d).builder.state = .failed (some step) ∧ (b.build d).disk = p.disk := by
  obtain ⟨q, herror, hdisk⟩ := copyOptional_of_linkedDirectory hfind hlink
  rw [← take_of_mem_optionalCopies hcopy] at herror
  obtain ⟨hstate, hresult⟩ := build_of_firstFailing hv ⟨p, q, hbefore, herror⟩
  obtain ⟨after, hall⟩ := step.all_eq
  have hsteps := takeSteps_eq_some_iff.2 ⟨step.before, after, p, hall, hbefore, herror⟩
  rw [start] at hsteps
  refine ⟨hresult, hstate, ?_⟩
  rw [build_of_accepted hv, hsteps, hdisk]

theorem Action.CopiedOptional.not_linkedDirectory {artifacts : List Artifact}
    (h : CopiedOptional s x d e artifacts)
    (hfind : d.find (Path.append s.packagePath x) = .ok (l, .directory)) :
    d.isLink (Path.append s.packagePath x) = false := by
  rw [← Bool.not_eq_true]
  intro hlink
  cases h with
  | absent hnone =>
    rw [exists?, hfind] at hnone
    cases hnone
  | copied _ hcopy _ =>
    rw [copy, copyListed_of_linkedDirectory hfind hlink] at hcopy
    cases hcopy

/-- No build succeeds where the readme or the license is a link to a directory. -/
theorem not_linkedDirectory_of_build {b : Builder} {report : Report}
    (hok : (b.build d).result = .ok report) (hx : x ∈ [readmeName, licenseName])
    (hfind : (prepared b.settings d).find (Path.append b.settings.packagePath x) =
      .ok (l, .directory)) :
    (prepared b.settings d).isLink (Path.append b.settings.packagePath x) = false := by
  obtain ⟨plan, readme, license, r, h, -⟩ := remembered_of_build hok
  obtain ⟨d₁, e₁, hways₁, hreadme⟩ := h.copyReadme
  obtain ⟨d₂, e₂, hways₂, hlicense⟩ := h.copyLicense
  rw [← Bool.not_eq_true]
  intro hlink
  rcases List.mem_pair.1 hx with rfl | rfl
  · have hlinked := isLink_of_ways hways₁ isFileName_readme hfind hlink
    rw [hreadme.not_linkedDirectory (find_of_ways hways₁ hfind)] at hlinked
    cases hlinked
  · have hlinked := isLink_of_ways hways₂ isFileName_license hfind hlink
    rw [hlicense.not_linkedDirectory (find_of_ways hways₂ hfind)] at hlinked
    cases hlinked

/-- What can be copied itself is copied through a link exactly if it is no directory. A link to a
file is copied as the file is, with the same effect and the same answer, but that a failure names
the path that was given; a link to a directory is refused, and nothing is changed. The step that
comes upon such a link in place of the readme or the license fails, and the build with it. -/
theorem copies_of_links (b : Builder) (d : Disk) :
    (∀ link original l node, d.Linked link original l node → ∀ listing target,
      (∀ count, (d.copyListed listing original target).1 = .ok count →
        (d.copyListed listing link target = d.copyListed listing original target ↔
          node ≠ .directory)) ∧
      (node ≠ .directory → ∃ (answer : Except Fault Nat) (e : Disk),
        d.copyListed listing link target = (answer.mapError (.io link), e) ∧
        d.copyListed listing original target = (answer.mapError (.io original), e)) ∧
      (node = .directory →
        d.copyListed listing link target = (.error (.io link .notAFile), d))) ∧
    (∀ step x p l, (step, x) ∈ optionalCopies → b.settings.validate = .ok () →
      Succeeds b.settings step.before (start b.settings d) p →
      p.disk.find (Path.append b.settings.packagePath x) = .ok (l, .directory) →
      p.disk.isLink (Path.append b.settings.packagePath x) = true →
        (b.build d).result = .error (.io (Path.append b.settings.packagePath x) .notAFile) ∧
        (b.build d).builder.state = .failed (some step) ∧ (b.build d).disk = p.disk) ∧
    ∀ report, d.WellFormed → (b.build d).result = .ok report →
      ∀ x ∈ [readmeName, licenseName], ∀ l,
        (prepared b.settings d).find (Path.append b.settings.packagePath x) = .ok (l, .directory) →
        (prepared b.settings d).isLink (Path.append b.settings.packagePath x) = false := by
  refine ⟨fun link original l node h listing target => ⟨?copied, ?file, ?directory⟩,
    fun step x p l => build_of_linkedDirectory, fun report _ hok x hx l =>
    not_linkedDirectory_of_build hok hx⟩
  case copied => exact fun count hok => h.copy_eq_iff hok
  case file => exact fun hnode => h.copy_file hnode listing target
  case directory =>
    rintro rfl
    exact copyListed_of_linkedDirectory h.find_link h.isLink listing target

/-- A package whose readme is a link to a directory with one file, and whose license is a link to
that file. -/
def linkedReadme : Disk :=
  ⟨[(["LICENSE".toList], .link "docs/a".toList),
    (["README.md".toList], .link "docs".toList),
    (["docs".toList], .directory),
    (["docs".toList, "a".toList], .file (Bytes.ofText "x".toList)),
    (["package.json".toList], .file (Bytes.ofText "{}".toList)),
    (["src".toList], .directory)], by decide⟩

theorem copies_of_links_linkedReadme :
    linkedReadme.Linked "/LICENSE".toList "/docs/a".toList ["docs".toList, "a".toList]
      (.file (Bytes.ofText "x".toList)) ∧
    linkedReadme.copyListed names "/LICENSE".toList "/out".toList =
      linkedReadme.copyListed names "/docs/a".toList "/out".toList ∧
    (linkedReadme.copyListed names "/docs/a".toList "/out".toList).1 = .ok 1 ∧
    (rootBuilder.build linkedReadme).result = .error (.io "/README.md".toList .notAFile) ∧
    (rootBuilder.build linkedReadme).builder.state = .failed (some .copyReadme) := by
  have hlicense : linkedReadme.Linked "/LICENSE".toList "/docs/a".toList
      ["docs".toList, "a".toList] (.file (Bytes.ofText "x".toList)) :=
    ⟨by decide +kernel, by decide +kernel, by decide +kernel⟩
  let before := takeSteps rootBuilder.settings Step.copyReadme.before
    (start rootBuilder.settings linkedReadme)
  have hbefore : Succeeds rootBuilder.settings Step.copyReadme.before
      (start rootBuilder.settings linkedReadme) before.2 := by
    have hnone : before.1 = none := by decide +kernel
    exact takeSteps_eq_none_iff.1 (Prod.ext hnone rfl)
  obtain ⟨hlinks, hbuild, -⟩ := copies_of_links rootBuilder linkedReadme
  obtain ⟨hresult, hstate, -⟩ := hbuild .copyReadme readmeName before.2 ["docs".toList]
    (List.mem_cons_self ..) (by decide +kernel) hbefore (by decide +kernel) (by decide +kernel)
  obtain ⟨hsame, -, -⟩ := hlinks _ _ _ _ hlicense names "/out".toList
  have hok : (linkedReadme.copyListed names "/docs/a".toList "/out".toList).1 = .ok 1 := by
    decide +kernel
  exact ⟨hlicense, (hsame 1 hok).2 nofun, hok, hresult, hstate⟩

/-- The directory itself is copied to where the link to it is not. -/
theorem linkedReadme_refused : linkedReadme.WellFormed ∧
    linkedReadme.Linked "/README.md".toList "/docs".toList ["docs".toList] .directory ∧
    (linkedReadme.copy "/docs".toList "/out".toList).1 = .ok 1 ∧
    (linkedReadme.copy "/docs".toList "/out".toList).2.readText "/out/a".toList =
      .ok "x".toList ∧
    linkedReadme.copy "/README.md".toList "/out".toList =
      (.error (.io "/README.md".toList .notAFile), linkedReadme) := by
  have hlinked : linkedReadme.Linked "/README.md".toList "/docs".toList ["docs".toList] .directory :=
    ⟨by decide +kernel, by decide +kernel, by decide +kernel⟩
  exact ⟨by decide +kernel, hlinked, by decide +kernel, by decide +kernel,
    copyListed_of_linkedDirectory hlinked.find_link hlinked.isLink names _⟩

end ModulePack
