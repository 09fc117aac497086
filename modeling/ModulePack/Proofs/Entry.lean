import ModulePack.Entry
import ModulePack.Proofs.Disk.Writing
import ModulePack.Proofs.FileName
import ModulePack.Proofs.Json.Strings
import ModulePack.Proofs.Wrapper.Unwrap

/-!
# What the entry exports

`fields?` reads the fields of the exported object from the lines of an entry. It finds the version
and one field for each script, whatever characters the names have, in the body of an entry
(`fields?_body`) and in its wrapper (`exports?_text`). Keys may clash: `keys_nodup_iff` says exactly
when.
-/

namespace ModulePack.Entry

open Text FileName Disk

variable {line key value : Text} {ls names : List Text} {version : Option Json}

/-! ### Reading fields -/

/-- The key and the value on a line. -/
def field? (line : Text) : Option (Text × Text) := do
  let quoted ← after? (indentUnit ++ ['"']) line
  let (key, rest) ← Json.stringBody? quoted
  return (key, ← after? ": ".toList rest)

/-- The lines without the comma behind each but the last. -/
def withoutCommas? : List Text → Option (List Text)
  | [] => some []
  | [line] => some [line]
  | line :: rest =>
    if line.getLast? = some ',' then (withoutCommas? rest).map (line.dropLast :: ·) else none

/-- The fields of the object that the lines of an entry export. -/
def fields? : List Text → Option (List (Text × Text))
  | first :: brace :: rest =>
    if first = "module.exports =".toList ∧ brace = ['\x7b'] ∧
        rest.getLast? = some ['\x7d', ';'] then
      (withoutCommas? rest.dropLast).bind (·.mapM field?)
    else none
  | _ => none

/-! ### The fields of an entry -/

def versionText (version : Option Json) : Text :=
  (version.map Json.compact).getD "undefined".toList

/-- The text that loads the module with a given base name. -/
def requireText (base : Text) : Text :=
  "require(".toList ++ Json.stringText ("./".toList ++ base) ++ ")".toList

def fields (version : Option Json) (names : List Text) : List (Text × Text) :=
  ("version".toList, versionText version) ::
    (names.filter isScript).map fun name => (stem name, requireText (stem name))

theorem field?_fieldLine (key value : Text) : field? (fieldLine key value) = some (key, value) := by
  have hline : fieldLine key value =
      (indentUnit ++ ['"']) ++ (key.flatMap Json.escapeChar ++ '"' :: (": ".toList ++ value)) := by
    simp [fieldLine, Json.stringText]
  rw [field?, hline, after?_append, Option.bind_eq_bind, Option.bind_some,
    Json.stringBody?_flatMap]
  simp only [Option.bind_eq_bind, Option.bind_some, after?_append]
  rfl

theorem withoutCommas?_withCommas (ls : List Text) : withoutCommas? (withCommas ls) = some ls := by
  induction ls with
  | nil => rfl
  | cons line rest ih =>
    cases rest with
    | nil => rfl
    | cons next rest =>
      obtain ⟨first, more, hcons⟩ : ∃ first more, withCommas (next :: rest) = first :: more := by
        cases rest <;> exact ⟨_, _, rfl⟩
      rw [hcons] at ih
      rw [withCommas, hcons, withoutCommas?, if_pos (by simp), ih]
      · simp
      all_goals simp

theorem bodyLines_eq (version : Option Json) (names : List Text) : bodyLines version names =
    "module.exports =".toList :: ['\x7b'] ::
      (withCommas ((fields version names).map fun field => fieldLine field.1 field.2) ++
        [['\x7d', ';']]) := by
  simp only [bodyLines, fields, exports, List.map_cons, List.map_map, List.cons_append,
    List.nil_append, Function.comp_def]
  rfl

theorem fields?_bodyLines (version : Option Json) (names : List Text) :
    fields? (bodyLines version names) = some (fields version names) := by
  rw [bodyLines_eq, fields?, if_pos ⟨rfl, rfl, List.getLast?_concat⟩, List.dropLast_concat,
    withoutCommas?_withCommas, Option.bind_some]
  induction fields version names with
  | nil => rfl
  | cons field rest ih =>
    simp only [List.map_cons, List.mapM_cons, field?_fieldLine, Option.bind_eq_bind,
      Option.bind_some, ih]
    rfl

/-! ### The lines of an entry -/

theorem isLine_fieldLine (hvalue : IsLine value) (key : Text) : IsLine (fieldLine key value) := by
  have hkey := (Json.noControl_stringText key).isLine
  rw [fieldLine, isLine_append, isLine_append, isLine_append]
  exact ⟨⟨⟨by decide, hkey⟩, by decide⟩, hvalue⟩

theorem isLine_versionText (version : Option Json) : IsLine (versionText version) := by
  cases version with
  | none => decide
  | some v => exact (Json.noControl_compact v).isLine

theorem isLine_requireText (base : Text) : IsLine (requireText base) := by
  have hpath := (Json.noControl_stringText ("./".toList ++ base)).isLine
  unfold requireText
  rw [isLine_append, isLine_append]
  exact ⟨⟨by decide, hpath⟩, by decide⟩

theorem isLine_of_mem_withCommas (h : ∀ line ∈ ls, IsLine line) :
    ∀ line ∈ withCommas ls, IsLine line := by
  fun_induction withCommas ls with
  | case1 => exact h
  | case2 => exact h
  | case3 first rest _ ih =>
    intro line hline
    rcases List.mem_cons.1 hline with rfl | hline
    · exact isLine_append.2 ⟨h first (by simp), by decide⟩
    · exact ih (fun line hline => h line (by simp [hline])) line hline

theorem isLine_of_mem_bodyLines (version : Option Json) (names : List Text) :
    ∀ line ∈ bodyLines version names, IsLine line := by
  have hfields : ∀ line ∈ (fields version names).map fun field => fieldLine field.1 field.2,
      IsLine line := by
    intro line hline
    obtain ⟨field, hfield, rfl⟩ := List.mem_map.1 hline
    refine isLine_fieldLine ?_ _
    rcases List.mem_cons.1 hfield with rfl | hfield
    · exact isLine_versionText version
    · obtain ⟨name, -, rfl⟩ := List.mem_map.1 hfield
      exact isLine_requireText _
  rw [bodyLines_eq]
  intro line hline
  simp only [List.mem_cons, List.mem_append, List.not_mem_nil, or_false] at hline
  rcases hline with rfl | rfl | hline | rfl
  · decide
  · decide
  · exact isLine_of_mem_withCommas hfields line hline
  · decide

/-- The body has exactly its lines, whatever the names and the version are. -/
theorem lines_body (version : Option Json) (names : List Text) :
    lines (body version names) = bodyLines version names := by
  rw [body, lines_unlines (isLine_of_mem_bodyLines version names), orEmptyLine, if_neg]
  rw [bodyLines_eq]
  exact List.cons_ne_nil _ _

theorem fields?_body (version : Option Json) (names : List Text) :
    fields? (lines (body version names)) = some (fields version names) := by
  rw [lines_body, fields?_bodyLines]

/-! ### In the wrapper -/

/-- The fields that an entry in its wrapper exports, below a header. -/
def exports? (header wrapped : Text) : Option (List (Text × Text)) :=
  (Wrapper.unwrap? header wrapped).bind fields?

/-- The lines of the body are found in the wrapper, none of them lost to the trimming. -/
theorem unwrap?_text (header : Text) (version : Option Json) (names : List Text) :
    Wrapper.unwrap? header (text header version names) = some (lines (body version names)) := by
  have htrim : trimBlank (bodyLines version names) = bodyLines version names := by
    rw [bodyLines_eq, ← List.cons_append]
    exact trimBlank_of_ends (by decide +kernel) (by decide +kernel) _
  have hlines : orEmptyLine (bodyLines version names) = bodyLines version names := by
    rw [bodyLines_eq]
    exact if_neg (List.cons_ne_nil _ _)
  rw [text, Wrapper.unwrap?_wrap, lines_body, htrim, hlines]

theorem exports?_text (header : Text) (version : Option Json) (names : List Text) :
    exports? header (text header version names) = some (fields version names) := by
  rw [exports?, unwrap?_text, Option.bind_some, fields?_body]

/-! ### Keys -/

theorem keys_fields (version : Option Json) (names : List Text) :
    (fields version names).map Prod.fst = "version".toList :: (names.filter isScript).map stem := by
  simp only [fields, List.map_cons, List.map_map, Function.comp_def]

theorem not_mem_stems_iff {base : Text} : base ∉ (names.filter isScript).map stem ↔
    ∀ t, IsExtension t → base ++ t ∉ names := by
  simp only [List.mem_map, List.mem_filter, not_exists, not_and]
  constructor
  · intro h t ht hmem
    exact h _ ⟨hmem, ht.isScript base⟩ (stem_append ht base)
  · rintro h name ⟨hmem, hscript⟩ rfl
    obtain ⟨t, ht, hname⟩ := isScript_iff.1 hscript
    exact h t ht (hname ▸ hmem)

theorem nodup_stems_iff (hnames : names.Nodup) : ((names.filter isScript).map stem).Nodup ↔
    ∀ base t t', IsExtension t → IsExtension t' → base ++ t ∈ names → base ++ t' ∈ names →
      t = t' := by
  rw [List.nodup_map_iff_inj_on (hnames.filter _)]
  simp only [List.mem_filter]
  constructor
  · intro h base t t' ht ht' hmem hmem'
    have := h _ ⟨hmem, ht.isScript base⟩ _ ⟨hmem', ht'.isScript base⟩
      (by rw [stem_append ht, stem_append ht'])
    exact List.append_cancel_left this
  · rintro h x ⟨hx, hxs⟩ y ⟨hy, hys⟩ hstem
    obtain ⟨t, ht, hxt⟩ := isScript_iff.1 hxs
    obtain ⟨t', ht', hyt⟩ := isScript_iff.1 hys
    rw [hxt, hyt, ← hstem, h (stem x) t t' ht ht' (hxt ▸ hx) (hstem ▸ hyt ▸ hy)]

/-- The keys of an entry are `version` and the stems of the scripts, in their order. No two are the
same exactly if there is no script `version` and no two scripts differ in the case of `.js` alone.
Then each export, and the version, has the value that it was given. -/
theorem keys_nodup_iff (version : Option Json) {names : List Text} (hnames : names.Nodup) :
    ∃ fs, fields? (lines (body version names)) = some fs ∧
      fs.map Prod.fst = "version".toList :: (names.filter isScript).map stem ∧
      ((fs.map Prod.fst).Nodup ↔ (∀ t, IsExtension t → "version".toList ++ t ∉ names) ∧
        ∀ base t t', IsExtension t → IsExtension t' → base ++ t ∈ names → base ++ t' ∈ names →
          t = t') ∧
      ((fs.map Prod.fst).Nodup → last? "version".toList fs = some (versionText version) ∧
        ∀ name ∈ names, isScript name = true →
          last? (stem name) fs = some (requireText (stem name))) := by
  refine ⟨_, fields?_body version names, keys_fields version names, ?_, fun hnodup => ⟨?_, ?_⟩⟩
  · rw [keys_fields, List.nodup_cons, not_mem_stems_iff, nodup_stems_iff hnames]
  · have hmem : ("version".toList, versionText version) ∈ fields version names :=
      List.mem_cons_self ..
    exact last?_of_mem hnodup hmem
  · intro name hname hscript
    have hmem : (stem name, requireText (stem name)) ∈ fields version names :=
      List.mem_cons_of_mem _ (List.mem_map.2 ⟨name, List.mem_filter.2 ⟨hname, hscript⟩, rfl⟩)
    exact last?_of_mem hnodup hmem

theorem keys_nodup_two : ["a.js".toList, "b.JS".toList, "c".toList].Nodup ∧
    ∃ fs, fields? (lines (body none ["a.js".toList, "b.JS".toList, "c".toList])) = some fs ∧
      fs.map Prod.fst = ["version".toList, "a".toList, "b".toList] ∧
      last? "b".toList fs = some "require(\"./b\")".toList := by
  have hnames : ["a.js".toList, "b.JS".toList, "c".toList].Nodup := by decide
  obtain ⟨fs, hfs, hkeys, -, hvalues⟩ := keys_nodup_iff none hnames
  have hnodup : (fs.map Prod.fst).Nodup := by
    rw [hkeys]
    decide
  refine ⟨hnames, fs, hfs, hkeys.trans (by decide), ?_⟩
  exact (hvalues hnodup).2 "b.JS".toList (by decide) (by decide)

/-- A script `version.js` takes the place of the version, and of `a.JS` and `a.js` one is lost. -/
theorem keys_clash :
    (∃ fs, fields? (lines (body (some (.string "1.0.0".toList)) ["version.js".toList])) = some fs ∧
      ¬(fs.map Prod.fst).Nodup ∧
      last? "version".toList fs = some "require(\"./version\")".toList) ∧
    ["a.JS".toList, "a.js".toList].Nodup ∧
    ∃ fs, fields? (lines (body none ["a.JS".toList, "a.js".toList])) = some fs ∧
      ¬(fs.map Prod.fst).Nodup := by
  refine ⟨⟨_, fields?_body _ _, by decide, by decide⟩, by decide, _, fields?_body _ _, by decide⟩

end ModulePack.Entry
