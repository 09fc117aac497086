import ModulePack.Proofs.Settings

/-!
# The paths of settings

All paths of a build are resolved from the base, which is where the settings began, so that they are
absolute and have no dots left in them (`IsResolved`). The sources and the output are resolved with
the package in one go, and come to the same as if they were seen from the package's own path.
-/

namespace ModulePack

open ModulePack.Path

namespace Path

variable {p base : Path}

/-- An absolute path with neither a dot nor two dots between its slashes. -/
structure IsResolved (p : Path) : Prop where
  absolute : isAbsolute p = true
  no_here : ['.'] ∉ pieces p
  no_up : ['.', '.'] ∉ pieces p

theorem isResolved_normalize (h : isAbsolute p = true) : IsResolved (normalize p) := by
  have hname : ∀ x ∈ pieces (normalize p), x ≠ [] → IsName x := fun x hx hne =>
    isName_of_mem_names h (List.mem_filter.2 ⟨hx, by simpa using hne⟩)
  refine ⟨by rw [isAbsolute_normalize, h], fun hhere => ?_, fun hup => ?_⟩
  · exact (hname _ hhere (by simp)).ne_here rfl
  · exact (hname _ hup (by simp)).ne_up rfl

theorem isResolved_resolve (h : isAbsolute base = true) (segments : List Path) :
    IsResolved (resolve base segments) :=
  isResolved_normalize (isAbsolute_foldl_append h _)

end Path

namespace Settings

variable {cwd base : Path} {s : Settings}

theorem Reachable.isResolved_base (h : Reachable cwd base s) (hcwd : isAbsolute cwd = true)
    (hbase : base ≠ []) : IsResolved s.base := by
  rw [h.base_eq]
  refine isResolved_normalize ?_
  rw [if_neg hbase, isAbsolute_append, hcwd, Bool.true_or]

/-- Segments can be resolved in stages, from any base. So from a base that is given, settings lead to
resolved paths, whatever has been set, with the sources and the output as they are seen from the
package. -/
theorem paths_resolved_in_stages :
    (∀ (base : Path) (segments further : List Path),
      resolve base (segments ++ further) = resolve (resolve base segments) further) ∧
    ∀ (cwd base : Path) (s : Settings), isAbsolute cwd = true → base ≠ [] → Reachable cwd base s →
      (∀ p ∈ [s.base, s.packagePath, s.sourcePath, s.outputPath], IsResolved p) ∧
      s.sourcePath = resolve s.packagePath [s.source] ∧
      s.outputPath = resolve s.packagePath [s.output] := by
  refine ⟨resolve_append, fun cwd base s hcwd hbase hs => ⟨?_, ?_, ?_⟩⟩
  · have habsolute := hs.isAbsolute_base hcwd hbase
    simp only [List.forall_mem_cons, List.not_mem_nil, false_implies, implies_true, and_true]
    exact ⟨hs.isResolved_base hcwd hbase, isResolved_resolve habsolute _,
      isResolved_resolve habsolute _, isResolved_resolve habsolute _⟩
  · exact resolve_append s.base [s.package] [s.source]
  · exact resolve_append s.base [s.package] [s.output]

/-- A package beside a relative base, with its sources above the root and its output where it is. -/
def climbingSettings : Settings :=
  (((Settings.new "/work".toList "tools/.".toList).set "../pkg".toList .packagePath).set
    "../../../src".toList .sourcePath).set [] .outputPath

theorem paths_resolved_in_stages_climbing :
    climbingSettings.base = "/work/tools".toList ∧
    (∀ p ∈ [climbingSettings.base, "/work/pkg".toList, "/src".toList, "/work/pkg".toList],
      IsResolved p) ∧
    "/src".toList = resolve "/work/pkg".toList ["../../../src".toList] ∧
    "/work/pkg".toList = resolve "/work/pkg".toList [[]] := by
  have hreachable : Reachable "/work".toList "tools/.".toList climbingSettings :=
    .set (.set (.set .new _ _) _ _) _ _
  have hpackage : climbingSettings.packagePath = "/work/pkg".toList := by decide
  have hsource : climbingSettings.sourcePath = "/src".toList := by decide
  have houtput : climbingSettings.outputPath = "/work/pkg".toList := by decide
  obtain ⟨hpaths, hsources, houtputs⟩ := paths_resolved_in_stages.2 "/work".toList "tools/.".toList
    climbingSettings rfl (by decide) hreachable
  rw [hpackage, hsource, houtput] at hpaths
  rw [hpackage, hsource] at hsources
  rw [hpackage, houtput] at houtputs
  exact ⟨by decide, hpaths, hsources, houtputs⟩

end Settings

end ModulePack
