import ModulePack.Proofs.Entry
import ModulePack.Proofs.Json.Written

/-!
# The lines of an entry

Whatever characters the names and the version have, the body of an entry has one line for each field
and four besides (`Printed`). Every name on them is a JSON string that is read back, and the version
a JSON text, so that both can be told from the wrapped entry (`reads_back`).
-/

namespace ModulePack.Entry

open Text FileName

variable {version : Option Json}

theorem versionText_eq_undefined_iff :
    versionText version = "undefined".toList ↔ version = none := by
  cases version with
  | none => simp [versionText]
  | some v =>
    constructor
    · intro h
      have hhead := congrArg List.head? (show v.compact = "undefined".toList from h)
      exact absurd hhead (v.head?_compact_ne)
    · intro h
      cases h

/-! ### Lines -/

/-- What stands behind the field at `i` of `count` fields. -/
def comma (i count : Nat) : Text := if i + 1 < count then [','] else []

theorem getElem?_withCommas (ls : List Text) (i : Nat) :
    (withCommas ls)[i]? = ls[i]?.map fun line => line ++ comma i ls.length := by
  induction ls generalizing i with
  | nil => rfl
  | cons line rest ih =>
    cases rest with
    | nil => cases i <;> simp [withCommas, comma]
    | cons next rest =>
      rw [withCommas]
      · cases i with
        | zero => simp [comma]
        | succ i => simp [ih, comma]
      · exact List.cons_ne_nil _ _

/-- The lines are those of an entry: four, and one for each script. -/
structure Printed (version : Option Json) (scripts ls : List Text) : Prop where
  length : ls.length = 4 + scripts.length
  first : ls[0]? = some "module.exports =".toList
  second : ls[1]? = some ['\x7b']
  version : ls[2]? = some (fieldLine "version".toList (versionText version) ++
    comma 0 (1 + scripts.length))
  /-- Two strings stand on the line of a script: its stem and the path under which it is loaded. -/
  exports : ∀ i name, scripts[i]? = some name → ∃ key path,
    ls[3 + i]? = some (indentUnit ++ key ++ ": ".toList ++
      ("require(".toList ++ path ++ ")".toList) ++ comma (1 + i) (1 + scripts.length)) ∧
    Json.parse? key = some (.string (stem name)) ∧
    Json.parse? path = some (.string ("./".toList ++ stem name))
  last : ls[3 + scripts.length]? = some ['\x7d', ';']

theorem length_fields (version : Option Json) (names : List Text) :
    (fields version names).length = 1 + (names.filter isScript).length := by
  rw [fields, List.length_cons, List.length_map, Nat.add_comm]

/-- Behind the first two lines stand the fields, and then the last line. -/
theorem getElem?_bodyLines (version : Option Json) (names : List Text) (i : Nat) :
    (bodyLines version names)[2 + i]? = if i < 1 + (names.filter isScript).length then
      (fields version names)[i]?.map fun field =>
        fieldLine field.1 field.2 ++ comma i (1 + (names.filter isScript).length)
    else if i = 1 + (names.filter isScript).length then some ['\x7d', ';'] else none := by
  rw [bodyLines_eq, Nat.add_comm 2 i, List.getElem?_cons_succ, List.getElem?_cons_succ,
    List.getElem?_append, length_withCommas, List.length_map, length_fields]
  split
  · simp [getElem?_withCommas, length_fields, Function.comp_def]
  · rename_i hi
    split
    · rename_i heq
      simp [heq]
    · exact List.getElem?_eq_none (by simp; omega)

theorem printed_bodyLines (version : Option Json) (names : List Text) :
    Printed version (names.filter isScript) (bodyLines version names) := by
  refine ⟨?_, ?_, ?_, ?_, fun i name hname => ?_, ?_⟩
  · rw [bodyLines_eq]
    simp only [List.length_cons, List.length_append, length_withCommas, List.length_map,
      length_fields, List.length_nil]
    omega
  · rw [bodyLines_eq]
    rfl
  · rw [bodyLines_eq]
    rfl
  · rw [getElem?_bodyLines version names 0, if_pos (by omega)]
    rfl
  · obtain ⟨hi, -⟩ := List.getElem?_eq_some_iff.1 hname
    refine ⟨Json.stringText (stem name), Json.stringText ("./".toList ++ stem name), ?_,
      Json.parse?_stringText _, Json.parse?_stringText _⟩
    rw [show 3 + i = 2 + (1 + i) by omega, getElem?_bodyLines, if_pos (by omega), Nat.add_comm 1 i,
      fields, List.getElem?_cons_succ, List.getElem?_map, hname]
    rfl
  · rw [show 3 + (names.filter isScript).length = 2 + (1 + (names.filter isScript).length) by omega,
      getElem?_bodyLines, if_neg (by omega), if_pos rfl]

/-- The body of an entry has its lines and no others, and they are found in the wrapper, below any
header, with the fields on them. The version is told from `undefined`, and the text on its line is
read back as its value, if a JSON reader takes values that are nested as deeply. -/
theorem reads_back (header : Text) (version : Option Json) (names : List Text) :
    Printed version (names.filter isScript) (lines (body version names)) ∧
    (versionText version = "undefined".toList ↔ version = none) ∧
    (∀ v, version = some v → versionText version = v.compact ∧
      (Json.Fits Json.maxDepth v → (∀ n, Json.Occurs n v → n.IsReread) →
        Json.parse? (versionText version) = some v)) ∧
    Wrapper.unwrap? header (text header version names) = some (lines (body version names)) ∧
    exports? header (text header version names) = some (fields version names) := by
  refine ⟨?_, versionText_eq_undefined_iff, ?_, unwrap?_text .., exports?_text ..⟩
  · rw [lines_body]
    exact printed_bodyLines version names
  · rintro v rfl
    exact ⟨rfl, Json.parse?_compact⟩

/-- Neither a line end in a name nor one in the version makes a line. -/
theorem reads_back_lineEnds :
    let version : Option Json := some (.string "1\r\n\";".toList)
    let names := ["a\"\\.js".toList, "b".toList, "\r\n.JS".toList]
    (lines (body version names)).length = 6 ∧
    (∃ key path, (lines (body version names))[4]? = some (indentUnit ++ key ++ ": ".toList ++
        ("require(".toList ++ path ++ ")".toList)) ∧
      Json.parse? key = some (.string "\r\n".toList) ∧
      Json.parse? path = some (.string "./\r\n".toList)) ∧
    Json.parse? (versionText version) = version := by
  intro version names
  obtain ⟨h, -, hversion, -, -⟩ := reads_back [] version names
  have hscripts : names.filter isScript = ["a\"\\.js".toList, "\r\n.JS".toList] := by decide
  rw [hscripts] at h
  refine ⟨h.length, ?_, ?_⟩
  · obtain ⟨key, path, hline, hkey, hpath⟩ := h.exports 1 "\r\n.JS".toList rfl
    have hcomma : comma (1 + 1) (1 + 2) = [] := rfl
    have hstem : stem "\r\n.JS".toList = "\r\n".toList := by decide
    rw [List.length_cons, List.length_singleton, hcomma, List.append_nil] at hline
    rw [hstem] at hkey hpath
    exact ⟨key, path, hline, hkey, hpath⟩
  · exact (hversion _ rfl).2 .string fun n hn => nomatch hn

end ModulePack.Entry
