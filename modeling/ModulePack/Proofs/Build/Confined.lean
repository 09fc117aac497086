import ModulePack.Proofs.Build.Steps

/-!
# A build stays within its output

The path of the output denotes the directory that it leads to or, if there is none, the one that it
would lead to once the missing directories on its way were made; it denotes at most one
(`Denotes.unique`). However a build ends, whatever is not strictly below that directory is as
before, but for missing directories on the way that have been made (`build_confined`). This is said
of locations and not of paths, so it holds of what links lead to, be they in the old output or in a
tree that is copied. An empty path denotes no directory, and a build with one keeps to none
(`unconfined_without_path`).
-/

namespace ModulePack

namespace Disk

variable {c d : Disk} {k k' l there : Location} {x : Text} {xs ys rest : List Text} {n m : Nat}
  {p : Path}

/-- The directory that a path leads to, or would lead to if the missing ones were made. -/
def Denotes (d : Disk) (p : Path) (l : Location) : Prop :=
  d.find p = .ok (l, .directory) ∨ d.Missing (Path.names p) l

/-- No path passes through a name under which nothing stands. -/
theorem Passes.not_passes (hd : d.WellFormed) (h : Passes d maxLinks [] xs m there)
    (hx : IsFileName x) (hnone : d.get? (there ++ [x]) = none) :
    ¬Passes d maxLinks [] (xs ++ x :: rest) n l := by
  intro hpass
  have hwalk := hpass.walk_follow
  rw [h.walk_append (by simp) (by simp [hx.ne_nil]),
    walk_entry hx.isEntryStep hx.short (by simp), walkEntry, hnone] at hwalk
  dsimp only at hwalk
  split at hwalk
  · have hdir := hpass.directory hd (by simp)
    rw [← Except.ok.inj hwalk, hnone] at hdir
    cases hdir
  · cases hwalk

namespace Missing

theorem not_passes (h : d.Missing xs k) (hd : d.WellFormed) (hxs : xs <+: ys) :
    ¬Passes d maxLinks [] ys n l := by
  induction h with
  | first hpass hx hnone =>
    obtain ⟨rest, rfl⟩ := hxs
    rw [List.append_assoc]
    exact hpass.not_passes hd hx hnone
  | behind _ _ ih => exact ih ((List.prefix_append ..).trans hxs)

theorem ne_nil (h : d.Missing xs k) : xs ≠ [] := by cases h <;> simp

theorem unique (h : d.Missing xs k) (h' : d.Missing xs k') (hd : d.WellFormed) : k = k' := by
  induction h generalizing k' with
  | @first xs m there x hpass hx hnone =>
    generalize hys : xs ++ [x] = ys at h'
    cases h' with
    | first hpass' hx' hnone' =>
      obtain ⟨rfl, hlast⟩ := List.append_inj' hys rfl
      have hthere := hpass.walk_follow
      rw [hpass'.walk_follow] at hthere
      rw [Except.ok.inj hthere, hlast]
    | behind hmissing hx' =>
      obtain ⟨rfl, -⟩ := List.append_inj' hys rfl
      exact absurd hpass (hmissing.not_passes hd (List.prefix_refl _))
  | @behind xs k x hmissing hx ih =>
    generalize hys : xs ++ [x] = ys at h'
    cases h' with
    | first hpass' hx' hnone' =>
      obtain ⟨rfl, -⟩ := List.append_inj' hys rfl
      exact absurd hpass' (hmissing.not_passes hd (List.prefix_refl _))
    | behind hmissing' hx' =>
      obtain ⟨rfl, hlast⟩ := List.append_inj' hys rfl
      rw [ih hmissing', hlast]

/-- What goes missing on a path when only entries below `l` are removed was below `l`, if the path
led there before. -/
theorem isBelow (h : c.Missing xs k) (hd : d.WellFormed) (hcd : c ≤ d)
    (hsame : ∀ k, isBelow l k = false → c.get? k = d.get? k) (hxs : xs <+: ys)
    (hpass : Passes d maxLinks [] ys n l) : isBelow l k = true := by
  induction h with
  | @first xs m there x hpass' hx hnone =>
    by_contra hbelow
    have hgone := hsame (there ++ [x]) (by simpa using hbelow)
    rw [hnone] at hgone
    exact (first (hpass'.mono (.of_le hcd)) hx hgone.symm).not_passes hd hxs hpass
  | behind _ _ ih => exact isBelow_append (ih ((List.prefix_append ..).trans hxs)) _

end Missing

theorem not_denotes_nil : ¬d.Denotes [] l := by
  rintro (hfind | hmissing)
  · cases hfind
  · exact hmissing.ne_nil rfl

theorem Denotes.unique (h : d.Denotes p k) (h' : d.Denotes p k') (hd : d.WellFormed) : k = k' := by
  have hne {j j' : Location} (hfind : d.find p = .ok (j, .directory))
      (hmissing : d.Missing (Path.names p) j') : False := by
    obtain ⟨m, hreach⟩ := reaches_of_find hfind
    exact hmissing.not_passes hd (List.prefix_refl _) hreach
  rcases h with h | h <;> rcases h' with h' | h'
  · exact find_unique h h'
  · exact (hne h h').elim
  · exact (hne h' h).elim
  · exact h.unique h' hd

/-- After a directory has been cleared, its path misses what it missed before or leads through what
was in the directory. -/
theorem Missing.of_clear (h : (d.clear p).2.Missing xs k) (hd : d.WellFormed)
    (hxs : xs <+: Path.names p) :
    d.Missing xs k ∨ ∃ l, d.find p = .ok (l, .directory) ∧ Disk.isBelow l k = true := by
  by_cases hfind : ∃ l, d.find p = .ok (l, .directory)
  · obtain ⟨l, hl⟩ := hfind
    obtain ⟨m, hreach⟩ := reaches_of_find hl
    obtain ⟨hle, -, hframe⟩ := clear_frame hd p
    refine .inr ⟨l, hl, h.isBelow hd hle (fun k hk => hframe k fun l' hl' => ?_) hxs hreach⟩
    rwa [find_unique hl' hl]
  · rw [clear_of_not_find fun l hl => hfind ⟨l, hl⟩] at h
    exact .inl h

end Disk

open Disk ModulePack.Action

variable {s : Settings} {d e : Disk} {k out : Location} {m : Nat}

/-- The directory that is written to is the one that the path denotes, or in it. -/
theorem Action.Ready.denotes (hs : s.outputPath ≠ []) (hF : Ready s (prepared s d) m out)
    (hd : d.WellFormed) (hprep : Prepares s d) : ∃ l, d.Denotes s.outputPath l ∧ l <+: out := by
  obtain ⟨hle, hwf, -⟩ := clear_frame hd s.outputPath
  obtain ⟨m', out', hreach, hcases⟩ := makeDirectories_ok hwf _ hs hprep.2
  obtain rfl : out = out' := hF.reaches.unique hreach
  rcases hcases with ⟨-, hfind⟩ | ⟨hmissing, -⟩
  · exact ⟨out, .inl (find_of_le hle hfind), List.prefix_refl _⟩
  rcases hmissing.of_clear hd (List.prefix_refl _) with h | ⟨l, hl, hbelow⟩
  · exact ⟨out, .inr h, List.prefix_refl _⟩
  · obtain ⟨x, r, rfl⟩ := isBelow_iff.1 hbelow
    exact ⟨l, .inl hl, List.prefix_append ..⟩

/-- At `k` the disk `e` is as `d`, or has a directory that was missing on the way to the output. -/
def Confined (s : Settings) (d e : Disk) (k : Location) : Prop :=
  e.get? k = d.get? k ∨
    d.get? k = none ∧ d.MissingFor s.outputPath k ∧ e.get? k = some .directory

theorem confined_prepared (hd : d.WellFormed)
    (hk : ∀ l, d.Denotes s.outputPath l → isBelow l k = false) :
    Confined s d (prepared s d) k := by
  obtain ⟨-, hwf, hframe⟩ := clear_frame hd s.outputPath
  have hclear := hframe k fun l hl => hk l (.inl hl)
  have hmade := made_prepared (s := s) hd
  cases hold : (d.clear s.outputPath).2.get? k with
  | some node =>
    rw [hold] at hclear
    exact .inl ((hmade.le k node hold).trans hclear)
  | none =>
    rw [hold] at hclear
    cases hnew : (prepared s d).get? k with
    | none => exact .inl (hnew.trans hclear)
    | some node =>
      have hne : (prepared s d).get? k ≠ none := by simp [hnew]
      obtain ⟨xs, hxs, hmissing⟩ := makeDirectories_missing hwf _ hne hold
      obtain rfl : node = .directory := hmade.new k node hnew hold
      rcases hmissing.of_clear hd hxs with h | ⟨l, hl, hbelow⟩
      · exact .inr ⟨hclear.symm, ⟨xs, hxs, h⟩, hnew⟩
      · rw [hk l (.inl hl)] at hbelow
        cases hbelow

theorem Leaves.confined (hs : s.outputPath ≠ []) (h : Leaves s d e) (hd : d.WellFormed)
    (hk : ∀ l, d.Denotes s.outputPath l → isBelow l k = false) : Confined s d e k := by
  cases h with
  | cleared => exact .inl ((clear_frame hd s.outputPath).2.2 k fun l hl => hk l (.inl hl))
  | prepared => exact confined_prepared hd hk
  | written hF hprep hsame =>
    obtain ⟨l, hl, r, rfl⟩ := hF.denotes hs hd hprep
    have hnot : isBelow (l ++ r) k = false := by
      by_contra hbelow
      have := isBelow_of_append (by simpa using hbelow)
      rw [hk l hl] at this
      cases this
    rw [Confined, hsame k hnot]
    exact confined_prepared hd hk

/-- However a build ends, everything that is not strictly below the directory which the path of the
output denotes is as before, but for missing directories on the way to it that have been made. -/
theorem build_confined (b : Builder) {d : Disk} (hs : b.settings.outputPath ≠ [])
    (hd : d.WellFormed) {k : Location}
    (hk : ∀ out, d.Denotes b.settings.outputPath out → isBelow out k = false) :
    Confined b.settings d (b.build d).disk k := by
  cases hv : b.settings.validate with
  | error failure => exact .inl (by rw [build_of_refused hv])
  | ok u => exact (leaves_build hs hd hv).confined hs hd hk

/-- The package at the root, with links out of the output and out of the tree to be copied. -/
def linkedPackage : Disk :=
  ⟨[(["README.md".toList], .directory),
    (["README.md".toList, "kept".toList], .link "../kept".toList),
    (["kept".toList], .file (Bytes.ofText "k".toList)),
    (["lib".toList], .directory),
    (["lib".toList, "README.md".toList], .link "../kept".toList),
    (["package.json".toList], .file (Bytes.ofText "{}".toList)),
    (["src".toList], .directory),
    (["src".toList, "a.js".toList], .file [])], by decide⟩

theorem build_confined_linkedPackage :
    (rootBuilder.build linkedPackage).disk.get? ["lib".toList, "README.md".toList, "kept".toList] =
      some (.file (Bytes.ofText "k".toList)) ∧
    (rootBuilder.build linkedPackage).disk.get? ["kept".toList] =
      some (.file (Bytes.ofText "k".toList)) := by
  have hwf : linkedPackage.WellFormed := by decide +kernel
  have hlib : linkedPackage.Denotes rootBuilder.settings.outputPath ["lib".toList] :=
    .inl (by decide +kernel)
  refine ⟨by decide +kernel, ?_⟩
  rcases build_confined rootBuilder rootBuilder_outputPath_ne_nil hwf (k := ["kept".toList])
    (fun out hout => by rw [hout.unique hlib hwf]; decide) with h | ⟨hnone, -⟩
  · exact h
  · exact absurd hnone (by decide)

/-- An empty path denotes no directory, but the build succeeds and writes through a link that was
there. -/
theorem unconfined_without_path :
    let d := (innerPackage.put ["b.js".toList] (.link "elsewhere".toList)).put
      ["elsewhere".toList] (.file [])
    d.WellFormed ∧ (hereBuilder.build d).result.isOk = true ∧
      (∀ out, d.Denotes hereBuilder.settings.outputPath out →
        isBelow out ["elsewhere".toList] = false) ∧
      ¬Confined hereBuilder.settings d (hereBuilder.build d).disk ["elsewhere".toList] := by
  intro d
  refine ⟨by decide +kernel, by decide +kernel, fun out hout => ?_, ?_⟩
  · rw [hereBuilder_accepted.2] at hout
    exact absurd hout not_denotes_nil
  · rintro (hkept | ⟨hnone, -⟩)
    · revert hkept
      decide +kernel
    · revert hnone
      decide +kernel

end ModulePack
