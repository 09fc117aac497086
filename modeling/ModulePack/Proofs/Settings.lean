import ModulePack.Proofs.Path.Resolve
import ModulePack.Settings

/-!
# Settings in use

`Reachable` are the settings that come from fresh ones in any number of changes. None of these
touches the base (`Reachable.base_eq`), so that the package, its sources and its output are normal
absolute paths. A build requires some of them: `validate_eq_error_iff` says which one is named where
several are empty.
-/

namespace ModulePack

namespace Settings

/-- Settings that come from fresh ones by setters, loose values and configuration files, also those
that are refused half way. -/
inductive Reachable (cwd base : Path) : Settings → Prop
  | new : Reachable cwd base (new cwd base)
  | set {s : Settings} (h : Reachable cwd base s) (value : Text) (setting : Setting) :
      Reachable cwd base (s.set value setting)
  | setValue {s s' : Settings} {setting : Setting} {value : Option Toml.Value}
      (h : Reachable cwd base s) (hset : s.setValue setting value = .ok s') : Reachable cwd base s'
  | apply {s : Settings} (h : Reachable cwd base s) (file : File) :
      Reachable cwd base (s.apply file).1

variable {cwd base : Path} {s s' : Settings}

theorem base_setValue {setting : Setting} {value : Option Toml.Value}
    (h : s.setValue setting value = .ok s') : s'.base = s.base := by
  unfold setValue at h
  split at h
  · cases h
    exact base_set ..
  · cases h
    exact base_set ..
  · cases h

theorem base_apply (s : Settings) (file : File) : (s.apply file).1.base = s.base := by
  induction file generalizing s with
  | nil => rfl
  | cons entry file ih =>
    obtain ⟨setting, value⟩ := entry
    rw [apply]
    split
    · rename_i s' h
      rw [ih, base_setValue h]
    · rfl

theorem Reachable.base_eq (h : Reachable cwd base s) : s.base = (Settings.new cwd base).base := by
  induction h with
  | new => rfl
  | set _ value setting ih => rw [base_set, ih]
  | setValue _ hset ih => rw [base_setValue hset, ih]
  | apply _ file ih => rw [base_apply, ih]

theorem Reachable.isAbsolute_base (h : Reachable cwd base s) (hcwd : Path.isAbsolute cwd = true)
    (hbase : base ≠ []) : Path.isAbsolute s.base = true := by
  rw [h.base_eq, Settings.new, if_neg hbase, Path.isAbsolute_normalize, Path.isAbsolute_append, hcwd,
    Bool.true_or]

/-! ### What a build requires -/

/-- The setting is required and empty, and those looked at before it are not. -/
def IsFirstMissing (s : Settings) (setting : Setting) : Prop :=
  ∃ before after, required = before ++ setting :: after ∧ s.get setting = [] ∧
    ∀ other ∈ before, s.get other ≠ []

theorem validate_eq_error_iff {failure : Failure} :
    s.validate = .error failure ↔
      ∃ setting, s.IsFirstMissing setting ∧ failure = .missingSetting setting := by
  unfold validate
  split
  · rename_i setting hfind
    obtain ⟨hempty, before, after, hrequired, hbefore⟩ := List.find?_eq_some_iff_append.1 hfind
    have hfirst : s.IsFirstMissing setting :=
      ⟨before, after, hrequired, by simpa using hempty, by simpa using hbefore⟩
    constructor
    · rintro ⟨⟩
      exact ⟨setting, hfirst, rfl⟩
    · rintro ⟨other, ⟨before', after', hrequired', hempty', hbefore'⟩, rfl⟩
      have hfind' := List.find?_eq_some_iff_append (p := fun setting => s.get setting = []) |>.2
        ⟨by simpa using hempty', before', after', hrequired', by simpa using hbefore'⟩
      rw [hfind] at hfind'
      rw [Option.some.inj hfind']
  · rename_i hfind
    rw [List.find?_eq_none] at hfind
    refine ⟨(nomatch ·), ?_⟩
    rintro ⟨setting, ⟨before, after, hrequired, hempty, -⟩, -⟩
    exact absurd (by simpa using hempty) (hfind setting (by simp [hrequired]))

theorem validate_eq_ok_iff : s.validate = .ok () ↔ ∀ setting ∈ required, s.get setting ≠ [] := by
  unfold validate
  split
  · rename_i setting hfind
    have hempty : s.get setting = [] := by simpa using List.find?_some hfind
    exact ⟨(nomatch ·), fun h => absurd hempty (h setting (List.mem_of_find?_eq_some hfind))⟩
  · rename_i hfind
    rw [List.find?_eq_none] at hfind
    exact ⟨fun _ setting hmem => by simpa using hfind setting hmem, fun _ => rfl⟩

theorem not_isFirstMissing (h : s.validate = .ok ()) (setting : Setting) :
    ¬s.IsFirstMissing setting := by
  intro hmissing
  have hrefused := validate_eq_error_iff.2 ⟨setting, hmissing, rfl⟩
  rw [h] at hrefused
  cases hrefused

end Settings

end ModulePack
