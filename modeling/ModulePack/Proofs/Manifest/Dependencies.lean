import ModulePack.Manifest.Dependencies
import ModulePack.Proofs.Path.Relative
import ModulePack.Proofs.Settings

/-!
# Where rewritten dependencies lead

The way from the output to the place of a local dependency is written with its backslashes turned
into slashes, names with a backslash taken apart. `rebaseAll_reaches` says that it leads to the same
place as before unless there are such names on the way.
-/

namespace ModulePack

namespace Path

variable {p q : Path} {x : Text} {xs target start : List Text}

theorem not_mem_forwardSlashes (p : Path) : '\\' ∉ forwardSlashes p := by
  intro h
  obtain ⟨c, -, hc⟩ := List.mem_map.1 h
  split at hc
  · cases hc
  · contradiction

theorem forwardSlashes_join (xs : List Text) :
    forwardSlashes (Text.join ['/'] xs) = Text.join ['/'] (xs.map forwardSlashes) := by
  induction xs with
  | nil => rfl
  | cons x xs ih =>
    by_cases h : xs = []
    · simp [h]
    · rw [Text.join_cons h, List.map_cons, Text.join_cons (by simpa using h), ← ih]
      simp [forwardSlashes]

theorem mem_pieces_of_name_mem_parts (h : .name x ∈ parts p) : x ∈ pieces p := by
  obtain ⟨piece, hpiece, hname⟩ := List.mem_filterMap.1 h
  unfold Component.ofPiece? at hname
  split at hname
  · cases hname
  · cases hname
  · cases hname
  · cases hname
    exact hpiece

theorem not_mem_of_name_mem_parts (h : .name x ∈ parts (forwardSlashes p)) : '\\' ∉ x :=
  fun hx => not_mem_forwardSlashes p (mem_of_mem_pieces (mem_pieces_of_name_mem_parts h) hx)

theorem parts_forwardSlashes_way (h : ∀ x ∈ target, IsName x) (start : List Text) :
    parts (forwardSlashes (render ((way target start).components false))) =
      List.replicate (beyond start target).length .up ++
        (beyond target start).flatMap fun x => parts (forwardSlashes x) := by
  rw [render_components (proper_way h start)]
  simp only [Bool.false_eq_true, if_false, List.nil_append, forwardSlashes_join, parts_join,
    Place.pieces, way, List.reverse_reverse, List.map_append, List.flatMap_append, List.flatMap_map]
  simp [List.flatMap_replicate, show parts (forwardSlashes ['.', '.']) = [.up] from rfl]

theorem forwardSlashes_way (hnames : ∀ x ∈ target, IsName x)
    (hclean : ∀ x ∈ beyond target start, '\\' ∉ x) :
    forwardSlashes (render ((way target start).components false)) =
      render ((way target start).components false) := by
  have hpiece : ∀ x ∈ (way target start).pieces, forwardSlashes x = x := by
    intro x hx
    rcases List.mem_append.1 hx with hx | hx
    · rw [List.eq_of_mem_replicate hx]
      rfl
    · exact forwardSlashes_of_not_mem (hclean x (by simpa [way] using hx))
  rw [render_components (proper_way hnames start)]
  simp only [Bool.false_eq_true, if_false, List.nil_append, forwardSlashes_join,
    List.map_congr_left hpiece, List.map_id']

/-- A way with slashes for backslashes leads to the target just when there are no backslashes in it:
what is read from it has none. -/
theorem resolve_forwardSlashes_way (hp : isAbsolute p = true) (hq : isAbsolute q = true) :
    resolve (normalize p) [forwardSlashes
        (render ((way (names (normalize q)) (names (normalize p))).components false))] =
      normalize q ↔ ∀ x ∈ beyond (names (normalize q)) (names (normalize p)), '\\' ∉ x := by
  have hnames : ∀ x ∈ names (normalize q), IsName x := fun x => isName_of_mem_names hq
  constructor
  · intro h x hx
    rw [resolve_singleton, normalize_eq_iff, place_absolute hq] at h
    have hparts := parts_forwardSlashes_way hnames (names (normalize p))
    have habsolute : isAbsolute (normalize p) = true := by rw [isAbsolute_normalize, hp]
    obtain ⟨ws, rest, hplace, hws, hlen⟩ := exists_place_append habsolute hparts
    obtain ⟨shared, htarget, hstart⟩ := exists_shared (names (normalize q)) (names (normalize p))
    have hstack : ws ++ rest = (beyond (names (normalize q)) (names (normalize p))).reverse ++
        shared.reverse := by
      rw [← List.reverse_append, ← htarget]
      exact congrArg Place.names (hplace.symm.trans h.2)
    have hsum := congrArg List.length hstack
    have hstart := congrArg List.length hstart
    rw [place_normalize, place_absolute hp] at hlen
    simp only [List.length_append, List.length_reverse] at hsum hstart hlen
    -- `rest` is too short to hold a name past the shared ones
    have hfirst : (beyond (names (normalize q)) (names (normalize p))).reverse <+: ws :=
      List.prefix_of_prefix_length_le (hstack ▸ List.prefix_append ..) (List.prefix_append ws rest)
        (by rw [List.length_reverse]; omega)
    have hpart := hws x (hfirst.subset (List.mem_reverse.2 hx))
    exact not_mem_of_name_mem_parts (hparts ▸ List.mem_append_right _ hpart)
  · intro hclean
    rw [forwardSlashes_way hnames hclean, resolve_way hp hq]

end Path

open ModulePack.Path

namespace Dependencies

variable {cwd base path : Path} {s : Settings} {fields : Json.Fields} {key : Text}

theorem get?_rebaseAll (source target : Path) (fields : Json.Fields) (key : Text) :
    (rebaseAll source target fields).get? key =
      (fields.get? key).map (rebaseSpec source target) := by
  induction fields with
  | nil => rfl
  | cons field fields ih =>
    obtain ⟨k, v⟩ := field
    rw [rebaseAll] at ih
    rw [rebaseAll, List.map_cons, Json.Fields.get?, Json.Fields.get?, ih]
    split <;> rfl

theorem rebaseSpec_local (source target path : Path) :
    rebaseSpec source target (.string (marker ++ path)) =
      .string (marker ++ rebase source target path) := by
  simp [rebaseSpec, local?]

/-- A local dependency is rewritten as one that leads to the same place from the output as the old
one from the package, just when no name has a backslash on the way there. -/
theorem rebaseAll_reaches (hcwd : isAbsolute cwd = true) (hbase : base ≠ [])
    (hs : Settings.Reachable cwd base s)
    (hget : fields.get? key = some (.string (marker ++ path))) :
    ∃ path', (rebaseAll s.packagePath s.outputPath fields).get? key =
        some (.string (marker ++ path')) ∧
      (resolve s.outputPath [path'] = resolve s.packagePath [path] ↔
        ∀ x ∈ beyond (names (resolve s.packagePath [path])) (names s.outputPath), '\\' ∉ x) := by
  have habsolute := hs.isAbsolute_base hcwd hbase
  have houtput : isAbsolute s.outputPath = true := isAbsolute_resolve habsolute _
  have hplace : isAbsolute (resolve s.packagePath [path]) = true :=
    isAbsolute_resolve (isAbsolute_resolve habsolute _) _
  have hnormal : normalize s.outputPath = s.outputPath := normalize_resolve ..
  have hnormal' : normalize (resolve s.packagePath [path]) = resolve s.packagePath [path] :=
    normalize_resolve ..
  have hrelative := relative?_normalize houtput hplace
  have hreaches := resolve_forwardSlashes_way houtput hplace
  rw [hnormal, hnormal'] at hrelative hreaches
  refine ⟨rebase s.packagePath s.outputPath path, ?_, ?_⟩
  · rw [get?_rebaseAll, hget, Option.map_some, rebaseSpec_local]
  · rw [rebase, hrelative, Option.getD_some]
    exact hreaches

/-- A package with its output one level deeper, as `tools` of a repository. -/
def toolsSettings : Settings := (Settings.new ['/'] "/repo".toList).set "tools".toList .packagePath

theorem rebaseAll_reaches_shared :
    ∃ path', (rebaseAll toolsSettings.packagePath toolsSettings.outputPath
        [("shared".toList, .string (marker ++ "../shared".toList))]).get? "shared".toList =
          some (.string (marker ++ path')) ∧
      resolve toolsSettings.outputPath [path'] = "/repo/shared".toList := by
  have hreachable : Settings.Reachable ['/'] "/repo".toList toolsSettings := .set .new _ _
  have hget : Json.Fields.get? "shared".toList
      [("shared".toList, .string (marker ++ "../shared".toList))] =
        some (.string (marker ++ "../shared".toList)) := rfl
  obtain ⟨path', hget', hreaches⟩ := rebaseAll_reaches rfl (by decide) hreachable hget
  exact ⟨path', hget', hreaches.2 (by decide)⟩

/-- A dependency in a directory whose name has a backslash is lost. -/
theorem backslash_lost :
    ¬∀ (cwd base : Path) (s : Settings) (fields : Json.Fields) (key : Text) (path : Path),
      isAbsolute cwd = true → base ≠ [] → Settings.Reachable cwd base s →
      fields.get? key = some (.string (marker ++ path)) →
      ∃ path', (rebaseAll s.packagePath s.outputPath fields).get? key =
          some (.string (marker ++ path')) ∧
        resolve s.outputPath [path'] = resolve s.packagePath [path] := by
  intro h
  obtain ⟨path', hget, hreaches⟩ := h ['/'] "/p".toList (Settings.new ['/'] "/p".toList)
    [("a".toList, .string (marker ++ "x\\y".toList))] "a".toList "x\\y".toList rfl (by decide) .new rfl
  have hpath : some (Json.string (marker ++ path')) = some (.string (marker ++ "../x/y".toList)) :=
    hget.symm
  obtain rfl : path' = "../x/y".toList := by simpa using hpath
  exact absurd hreaches (by decide)

end Dependencies

end ModulePack
