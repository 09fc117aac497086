import ModulePack.Proofs.Settings

/-!
# Settings after changes

Settings are changed one at a time or by a file that gives several of them. `Writes` says what a
change writes and `Refuses` what it is refused for: a file writes what it gives up to the first
value that is no text. After any number of changes a setting is what the last of them wrote that
wrote it at all, and the base is what it was (`last_write_wins`).
-/

namespace ModulePack.Settings

variable {s : Settings} {setting : Setting} {text : Text} {value : Toml.Value} {file : File}

/-- Only a text is taken as the value of a setting. -/
def IsText (value : Toml.Value) : Prop := ∃ text, value = .string text

theorem isText_string (text : Text) : IsText (.string text) := ⟨text, rfl⟩

theorem setValue_of_not_isText (h : ¬IsText value) :
    s.setValue setting (some value) = .error (.invalidArgument setting value.kind) := by
  cases value with
  | string text => exact absurd (isText_string text) h
  | _ => rfl

/-! ### What a file gives -/

namespace File

/-- The value that a file gives for each setting, if any. -/
abbrev Given := Setting → Option Toml.Value

/-- The settings in the order in which those of a file apply. -/
def order : List Setting := [.packageName, .packagePath, .sourcePath, .outputPath]

/-- The entries of a file for some of the settings. -/
def entries (given : Given) (settings : List Setting) : File :=
  settings.filterMap fun setting => (given setting).map fun value => (setting, value)

variable {given : Given} {settings : List Setting} {entry : Setting × Toml.Value}

theorem mem_order (setting : Setting) : setting ∈ order := by cases setting <;> decide

theorem nodup_order : order.Nodup := by decide

theorem entries_append (given : Given) (before after : List Setting) :
    entries given (before ++ after) = entries given before ++ entries given after :=
  List.filterMap_append

theorem entries_cons_of_none (h : given setting = none) (settings : List Setting) :
    entries given (setting :: settings) = entries given settings := by
  simp [entries, h]

theorem entries_cons_of_some (h : given setting = some value) (settings : List Setting) :
    entries given (setting :: settings) = (setting, value) :: entries given settings := by
  simp [entries, h]

theorem mem_entries : entry ∈ entries given settings ↔
    entry.1 ∈ settings ∧ given entry.1 = some entry.2 := by
  obtain ⟨setting, value⟩ := entry
  simp only [entries, List.mem_filterMap, Option.map_eq_some_iff, Prod.mk.injEq]
  constructor
  · rintro ⟨_, hmem, _, hgiven, rfl, rfl⟩
    exact ⟨hmem, hgiven⟩
  · rintro ⟨hmem, hgiven⟩
    exact ⟨setting, hmem, value, hgiven, rfl, rfl⟩

theorem not_mem_fst_entries (h : setting ∉ settings) :
    setting ∉ (entries given settings).map Prod.fst := by
  intro hmem
  obtain ⟨entry, hentry, rfl⟩ := List.mem_map.1 hmem
  exact h (mem_entries.1 hentry).1

theorem exists_entries_of_ofPackage {package : Toml.Value} (h : ofPackage? package = some file) :
    ∃ given, file = entries given order := by
  unfold ofPackage? at h
  split at h
  · rename_i fields
    refine ⟨fun setting => (keys.lookup setting).bind fun key => Toml.get? key fields, ?_⟩
    exact (Option.some.inj h).symm
  · rename_i items
    refine ⟨fun setting => items[order.idxOf setting]?, ?_⟩
    rw [← Option.some.inj h]
    match items with
    | [] | [_] | [_, _] | [_, _, _] | _ :: _ :: _ :: _ :: _ => rfl
  · exact ⟨fun _ => none, (Option.some.inj h).symm⟩
  · cases h

theorem entries_of_withMoments (h : withMoments? (entries given settings) = some file) :
    file = entries (fun setting => (given setting).bind Toml.Value.withMoments?) settings := by
  induction settings generalizing file with
  | nil => exact (Option.some.inj h).symm
  | cons setting settings ih =>
    cases hgiven : given setting with
    | none =>
      rw [entries_cons_of_none hgiven] at h
      rw [ih h, entries_cons_of_none (by simp [hgiven])]
    | some value =>
      rw [entries_cons_of_some hgiven, withMoments?, List.mapM_cons] at h
      obtain ⟨first, hfirst, h⟩ := Option.bind_eq_some_iff.1 h
      obtain ⟨more, hmore, h⟩ := Option.bind_eq_some_iff.1 h
      obtain ⟨moment, hmoment, rfl⟩ := Option.map_eq_some_iff.1 hfirst
      have hbind : (given setting).bind Toml.Value.withMoments? = some moment := by
        rw [hgiven, Option.bind_some, hmoment]
      rw [entries_cons_of_some hbind, ← ih hmore]
      exact (Option.some.inj h).symm

/-- A file gives every setting once at most, and in order. -/
theorem exists_entries_of_parse (h : parse? text = some file) :
    ∃ given, file = entries given order := by
  obtain ⟨fields, -, h⟩ := Option.bind_eq_some_iff.1 h
  split at h
  · exact ⟨fun _ => none, (Option.some.inj h).symm⟩
  · obtain ⟨package, hpackage, h⟩ := Option.bind_eq_some_iff.1 h
    obtain ⟨given, rfl⟩ := exists_entries_of_ofPackage hpackage
    exact ⟨_, entries_of_withMoments h⟩

end File

open File

/-! ### Applying a file -/

theorem apply_cons_text (s : Settings) (setting : Setting) (text : Text) (file : File) :
    s.apply ((setting, .string text) :: file) = (s.set text setting).apply file := rfl

theorem apply_cons_of_not_isText (h : ¬IsText value) (s : Settings) (setting : Setting)
    (file : File) : s.apply ((setting, value) :: file) =
      (s, .error (.invalidArgument setting value.kind)) := by
  rw [apply, setValue_of_not_isText h]

theorem apply_append (h : ∀ entry ∈ file, IsText entry.2) (s : Settings) (rest : File) :
    s.apply (file ++ rest) = (s.apply file).1.apply rest := by
  induction file generalizing s with
  | nil => rfl
  | cons entry file ih =>
    obtain ⟨setting, value⟩ := entry
    obtain ⟨⟨text, rfl⟩, hfile⟩ := List.forall_mem_cons.1 h
    rw [List.cons_append, apply_cons_text, apply_cons_text, ih hfile]

/-- What stands behind a value that is no text has no effect. -/
theorem apply_append_of_not_isText (h : ∃ entry ∈ file, ¬IsText entry.2) (s : Settings)
    (rest : File) : s.apply (file ++ rest) = s.apply file := by
  induction file generalizing s with
  | nil => simp at h
  | cons entry file ih =>
    obtain ⟨setting, value⟩ := entry
    rw [List.cons_append]
    by_cases hvalue : IsText value
    · obtain ⟨text, rfl⟩ := hvalue
      obtain ⟨entry, hmem, hentry⟩ := h
      have hlater : entry ∈ file := (List.mem_cons.1 hmem).resolve_left fun heq =>
        hentry (heq ▸ isText_string text)
      rw [apply_cons_text, apply_cons_text, ih ⟨entry, hlater, hentry⟩]
    · rw [apply_cons_of_not_isText hvalue, apply_cons_of_not_isText hvalue]

theorem get_apply_of_not_mem (h : setting ∉ file.map Prod.fst) (s : Settings) :
    (s.apply file).1.get setting = s.get setting := by
  induction file generalizing s with
  | nil => rfl
  | cons entry file ih =>
    obtain ⟨other, value⟩ := entry
    obtain ⟨hne, hfile⟩ : setting ≠ other ∧ setting ∉ file.map Prod.fst := by simpa using h
    by_cases hvalue : IsText value
    · obtain ⟨text, rfl⟩ := hvalue
      rw [apply_cons_text, ih hfile, get_set, if_neg (Ne.symm hne)]
    · rw [apply_cons_of_not_isText hvalue]

theorem apply_of_isText (h : ∀ entry ∈ file, IsText entry.2) (s : Settings) :
    (s.apply file).2 = .ok () := by
  have happend := apply_append h s []
  rw [List.append_nil] at happend
  rw [happend]
  rfl

/-! ### Changes -/

/-- A change that is asked for: one setting given a text or reset, one given a value of any type, or
all that a file gives. -/
inductive Change where
  | set (setting : Setting) (value : Option Text)
  | setValue (setting : Setting) (value : Option Toml.Value)
  | apply (given : Given)

/-- All that the file gives before a setting are texts. -/
def Gets (given : Given) (setting : Setting) : Prop :=
  ∃ before after, order = before ++ setting :: after ∧
    ∀ other ∈ before, ∀ value, given other = some value → IsText value

namespace Change

/-- What is there after a change, and the answer to it. -/
def perform (s : Settings) : Change → Settings × Except Failure Unit
  | .set setting value => (s.set (value.getD []) setting, .ok ())
  | .setValue setting value =>
    match s.setValue setting value with
    | .ok s => (s, .ok ())
    | .error failure => (s, .error failure)
  | .apply given => s.apply (entries given order)

/-- The change writes a text to a setting. -/
inductive Writes : Change → Setting → Text → Prop
  | set (setting : Setting) (text : Text) : Writes (.set setting (some text)) setting text
  | reset (setting : Setting) : Writes (.set setting none) setting []
  | setText (setting : Setting) (text : Text) :
      Writes (.setValue setting (some (.string text))) setting text
  | resetValue (setting : Setting) : Writes (.setValue setting none) setting []
  | apply {given : Given} {setting : Setting} {text : Text} (hgets : Gets given setting)
      (h : given setting = some (.string text)) : Writes (.apply given) setting text

/-- The change comes upon a value for a setting that is no text. -/
inductive Refuses : Change → Setting → Toml.Value → Prop
  | setValue {setting : Setting} {value : Toml.Value} (h : ¬IsText value) :
      Refuses (.setValue setting (some value)) setting value
  | apply {given : Given} {setting : Setting} {value : Toml.Value} (hgets : Gets given setting)
      (h : given setting = some value) (hvalue : ¬IsText value) :
      Refuses (.apply given) setting value

end Change

variable {c : Change} {changes : List Change} {given : Given}

/-- Where a file gets to a setting, it has been applied up to there. -/
theorem Gets.apply_entries (h : Gets given setting) (s : Settings) :
    ∃ (s' : Settings) (after : List Setting),
      s.apply (entries given order) = s'.apply (entries given (setting :: after)) ∧
        s'.get setting = s.get setting ∧ setting ∉ after := by
  obtain ⟨before, after, horder, hbefore⟩ := h
  have hnodup := nodup_order
  rw [horder, List.nodup_append] at hnodup
  obtain ⟨-, hafter, hapart⟩ := hnodup
  have hnot : setting ∉ before := fun hmem => hapart setting hmem setting (by simp) rfl
  refine ⟨(s.apply (entries given before)).1, after, ?_, ?_, (List.nodup_cons.1 hafter).1⟩
  · rw [horder, entries_append, apply_append]
    intro entry hentry
    obtain ⟨hmem, hgiven⟩ := mem_entries.1 hentry
    exact hbefore _ hmem _ hgiven
  · exact get_apply_of_not_mem (not_mem_fst_entries hnot) s

theorem get_apply_of_not_gets (h : ¬Gets given setting) (s : Settings) :
    (s.apply (entries given order)).1.get setting = s.get setting := by
  obtain ⟨before, after, horder, hnot⟩ := List.eq_append_cons_of_mem (mem_order setting)
  have hvalue : ∃ entry ∈ entries given before, ¬IsText entry.2 := by
    by_contra hall
    refine h ⟨before, after, horder, fun other hother value hgiven => ?_⟩
    by_contra hvalue
    exact hall ⟨(other, value), mem_entries.2 ⟨hother, hgiven⟩, hvalue⟩
  rw [horder, entries_append, apply_append_of_not_isText hvalue]
  exact get_apply_of_not_mem (not_mem_fst_entries hnot) s

namespace Change

theorem get_perform_of_writes (h : c.Writes setting text) (s : Settings) :
    (c.perform s).1.get setting = text := by
  cases h with
  | set | reset | setText | resetValue =>
    exact (get_set ..).trans (if_pos rfl)
  | @apply given setting text hgets hgiven =>
    obtain ⟨s', after, happly, -, hafter⟩ := hgets.apply_entries s
    rw [perform, happly, entries_cons_of_some hgiven, apply_cons_text,
      get_apply_of_not_mem (not_mem_fst_entries hafter), get_set, if_pos rfl]

theorem get_perform_of_not_writes (h : ∀ text, ¬c.Writes setting text) (s : Settings) :
    (c.perform s).1.get setting = s.get setting := by
  have hother : ∀ {other : Setting} {text : Text}, (other = setting → c.Writes setting text) →
      (s.set text other).get setting = s.get setting := fun {other text} hwrites => by
    rw [get_set, if_neg fun heq => h text (hwrites heq)]
  cases c with
  | set other value =>
    refine hother ?_
    rintro rfl
    cases value with
    | none => exact .reset other
    | some text => exact .set other text
  | setValue other value =>
    cases value with
    | none => exact hother fun heq => heq ▸ .resetValue other
    | some value =>
      by_cases hvalue : IsText value
      · obtain ⟨text, rfl⟩ := hvalue
        exact hother fun heq => heq ▸ .setText other text
      · rw [perform, setValue_of_not_isText hvalue]
  | apply given =>
    by_cases hgets : Gets given setting
    · obtain ⟨s', after, happly, hsame, hafter⟩ := hgets.apply_entries s
      rw [perform, happly, ← hsame]
      cases hgiven : given setting with
      | none =>
        rw [entries_cons_of_none hgiven]
        exact get_apply_of_not_mem (not_mem_fst_entries hafter) s'
      | some value =>
        have hvalue : ¬IsText value := by
          rintro ⟨text, rfl⟩
          exact h text (.apply hgets hgiven)
        rw [entries_cons_of_some hgiven, apply_cons_of_not_isText hvalue]
    · exact get_apply_of_not_gets hgets s

theorem answer_of_refuses (h : c.Refuses setting value) (s : Settings) :
    (c.perform s).2 = .error (.invalidArgument setting value.kind) := by
  cases h with
  | setValue hvalue => rw [perform, setValue_of_not_isText hvalue]
  | apply hgets hgiven hvalue =>
    obtain ⟨s', after, happly, -, -⟩ := hgets.apply_entries s
    rw [perform, happly, entries_cons_of_some hgiven, apply_cons_of_not_isText hvalue]

/-- The first value of a file that is no text is what the file is refused for. -/
theorem isText_of_not_refuses (h : ∀ setting value, ¬Refuses (.apply given) setting value)
    {before after : List Setting} (horder : order = before ++ after) :
    ∀ other ∈ before, ∀ value, given other = some value → IsText value := by
  induction before using List.reverseRecOn generalizing after with
  | nil => simp
  | append_singleton before setting ih =>
    rw [List.append_assoc, List.singleton_append] at horder
    have hbefore := ih horder
    intro other hother value hgiven
    rcases List.mem_append.1 hother with hother | hother
    · exact hbefore other hother value hgiven
    · obtain rfl := List.mem_singleton.1 hother
      by_contra hvalue
      exact h other value (.apply ⟨before, after, horder, hbefore⟩ hgiven hvalue)

theorem answer_of_not_refuses (h : ∀ setting value, ¬c.Refuses setting value) (s : Settings) :
    (c.perform s).2 = .ok () := by
  cases c with
  | set => rfl
  | setValue setting value =>
    cases value with
    | none => rfl
    | some value =>
      by_cases hvalue : IsText value
      · obtain ⟨text, rfl⟩ := hvalue
        rfl
      · exact absurd (.setValue hvalue) (h setting value)
  | apply given =>
    refine apply_of_isText (fun entry hentry => ?_) s
    obtain ⟨hmem, hgiven⟩ := mem_entries.1 hentry
    exact isText_of_not_refuses h (List.append_nil order).symm _ hmem _ hgiven

theorem base_perform (c : Change) (s : Settings) : (c.perform s).1.base = s.base := by
  cases c with
  | set => exact base_set ..
  | setValue setting value =>
    rw [perform]
    split
    · rename_i s' h
      exact base_setValue h
    · rfl
  | apply given => exact base_apply ..

end Change

/-- Changes made in turn, whatever the answers to them. -/
def run (s : Settings) (changes : List Change) : Settings :=
  changes.foldl (fun s c => (c.perform s).1) s

theorem run_append (s : Settings) (before after : List Change) :
    s.run (before ++ after) = (s.run before).run after := List.foldl_append

theorem run_cons (s : Settings) (c : Change) (changes : List Change) :
    s.run (c :: changes) = (c.perform s).1.run changes := rfl

theorem base_run (s : Settings) (changes : List Change) : (s.run changes).base = s.base := by
  induction changes generalizing s with
  | nil => rfl
  | cons c changes ih => rw [run_cons, ih, c.base_perform]

theorem get_run_of_not_writes (h : ∀ c ∈ changes, ∀ text, ¬c.Writes setting text) (s : Settings) :
    (s.run changes).get setting = s.get setting := by
  induction changes generalizing s with
  | nil => rfl
  | cons c changes ih =>
    obtain ⟨hc, hchanges⟩ := List.forall_mem_cons.1 h
    rw [run_cons, ih hchanges, Change.get_perform_of_not_writes hc]

/-- The text is what the last of the changes wrote that wrote the setting. -/
def IsLastWrite (changes : List Change) (setting : Setting) (text : Text) : Prop :=
  ∃ before c after, changes = before ++ c :: after ∧ c.Writes setting text ∧
    ∀ later ∈ after, ∀ other, ¬later.Writes setting other

theorem get_run_of_isLastWrite (h : IsLastWrite changes setting text) (s : Settings) :
    (s.run changes).get setting = text := by
  obtain ⟨before, c, after, rfl, hc, hafter⟩ := h
  rw [run_append, run_cons, get_run_of_not_writes hafter, Change.get_perform_of_writes hc]

/-- After any changes, a setting is what the last of them that wrote it has written, and what it was
if none did. Each is refused for the first value it comes upon that is no text, and only for that.
The base stays, and what is required is looked at as it is in the end. What a file gives for the
settings is all that comes from it. -/
theorem last_write_wins (s : Settings) (changes : List Change) :
    (∀ setting, (∀ text, IsLastWrite changes setting text → (s.run changes).get setting = text) ∧
      ((∀ c ∈ changes, ∀ text, ¬c.Writes setting text) →
        (s.run changes).get setting = s.get setting)) ∧
    (s.run changes).base = s.base ∧
    (∀ (c : Change) (s : Settings),
      (∀ setting value, c.Refuses setting value →
        (c.perform s).2 = .error (.invalidArgument setting value.kind)) ∧
      ((∀ setting value, ¬c.Refuses setting value) → (c.perform s).2 = .ok ())) ∧
    ((s.run changes).validate = .ok () ↔
      ∀ setting ∈ required, (s.run changes).get setting ≠ []) ∧
    (∀ failure, (s.run changes).validate = .error failure ↔
      ∃ setting, (s.run changes).IsFirstMissing setting ∧ failure = .missingSetting setting) ∧
    ∀ text file, File.parse? text = some file → ∃ given, file = entries given order := by
  refine ⟨fun setting => ⟨?written, ?unwritten⟩, base_run s changes, fun c s => ⟨?refused, ?taken⟩,
    validate_eq_ok_iff, fun failure => validate_eq_error_iff, fun text file =>
    exists_entries_of_parse⟩
  case written => exact fun text h => get_run_of_isLastWrite h s
  case unwritten => exact fun h => get_run_of_not_writes h s
  case refused => exact fun setting value h => c.answer_of_refuses h s
  case taken => exact fun h => c.answer_of_not_refuses h s

/-- A file with a name and an output, and a number between them. -/
def numberedFile : Given
  | .packageName => some (.string "n".toList)
  | .sourcePath => some (.integer 1)
  | .outputPath => some (.string "o".toList)
  | .packagePath => none

/-- The sources are given, and then a file that is refused for them. -/
def numberedChanges : List Change := [.set .sourcePath (some "a".toList), .apply numberedFile]

theorem last_write_wins_numberedChanges :
    IsLastWrite numberedChanges .packageName "n".toList ∧
    (∀ c ∈ numberedChanges, ∀ text, ¬c.Writes .outputPath text) ∧
    Change.Refuses (.apply numberedFile) .sourcePath (.integer 1) ∧
    ∀ s : Settings, (s.run numberedChanges).get .packageName = "n".toList ∧
      (s.run numberedChanges).get .outputPath = s.get .outputPath ∧
      (Change.perform s (.apply numberedFile)).2 =
        .error (.invalidArgument .sourcePath .integer) := by
  have hname : IsLastWrite numberedChanges .packageName "n".toList :=
    ⟨[.set .sourcePath (some "a".toList)], .apply numberedFile, [], rfl,
      .apply ⟨[], _, rfl, by simp⟩ rfl, by simp⟩
  have hsource : Change.Refuses (.apply numberedFile) .sourcePath (.integer 1) := by
    refine .apply ⟨[.packageName, .packagePath], _, rfl, ?_⟩ rfl (by simp [IsText])
    simp [numberedFile, IsText]
  have houtput : ∀ c ∈ numberedChanges, ∀ text, ¬c.Writes .outputPath text := by
    rintro c hc text hwrites
    simp only [numberedChanges, List.mem_cons, List.not_mem_nil, or_false] at hc
    rcases hc with rfl | rfl
    · cases hwrites
    · obtain ⟨before, after, horder, hbefore⟩ : Gets numberedFile .outputPath := by
        cases hwrites
        assumption
      rcases before with _ | ⟨_, _ | ⟨_, _ | ⟨third, before⟩⟩⟩ <;> simp [order] at horder
      obtain ⟨-, -, rfl, -⟩ := horder
      simpa [IsText] using hbefore .sourcePath (by simp) (.integer 1) rfl
  refine ⟨hname, houtput, hsource, fun s => ?_⟩
  obtain ⟨hget, -, hanswer, -⟩ := last_write_wins s numberedChanges
  exact ⟨(hget _).1 _ hname, (hget _).2 houtput, (hanswer _ s).1 _ _ hsource⟩

end ModulePack.Settings
