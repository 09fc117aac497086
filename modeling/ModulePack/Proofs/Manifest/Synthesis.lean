import Mathlib.Data.List.Basic
import ModulePack.Manifest.Basic
import ModulePack.Proofs.Json.Read

/-!
# The output manifest read again

The manifest of the output has the keys that it may have, in order, and under each of them what
`field?` says (`get?_synthesize`). Its text is read back as the same fields, from which the same
manifest is made again (`synthesize_rereads`).
-/

namespace ModulePack.Manifest

open Json

variable {m : Manifest} {name key : Text} {dependencies : Option Fields} {path : Path}
  {fields : Fields}

/-! ### Fields -/

theorem keys_synthesize (m : Manifest) (name : Text) (dependencies : Option Fields) :
    (m.synthesize name dependencies).keys =
      keys.filter fun key => (m.field? name dependencies key).isSome := by
  unfold synthesize
  induction keys with
  | nil => rfl
  | cons key rest ih => cases h : m.field? name dependencies key <;> simp_all [Fields.keys]

theorem nodup_keys_synthesize (m : Manifest) (name : Text) (dependencies : Option Fields) :
    (m.synthesize name dependencies).keys.Nodup := by
  rw [keys_synthesize]
  exact List.Pairwise.filter _ (by decide : keys.Nodup)

theorem get?_filterMap (ks : List Text) (f : Text → Option Json) (key : Text) :
    Fields.get? key (ks.filterMap fun k => (f k).map fun v => (k, v)) =
      if key ∈ ks then f key else none := by
  induction ks with
  | nil => rfl
  | cons k ks ih =>
    by_cases hk : k = key
    · subst hk
      cases hf : f k with
      | none => simp [hf, ih]
      | some v => simp [hf, Fields.get?]
    · cases hf : f k <;> simp [hf, Fields.get?, hk, Ne.symm hk, ih]

theorem get?_synthesize (h : key ∈ keys) :
    (m.synthesize name dependencies).get? key = m.field? name dependencies key := by
  rw [synthesize, get?_filterMap, if_pos h]

theorem mem_of_get? {v : Json} (h : fields.get? key = some v) : (key, v) ∈ fields := by
  induction fields with
  | nil => cases h
  | cons field fields ih =>
    obtain ⟨k, w⟩ := field
    rw [Fields.get?] at h
    split at h
    · rename_i hk
      rw [hk, Option.some.inj h]
      exact List.mem_cons_self ..
    · exact List.mem_cons_of_mem _ (ih h)

theorem get?_eq_none (h : key ∉ fields.keys) : fields.get? key = none :=
  Option.eq_none_iff_forall_ne_some.2 fun _ hvalue =>
    h (List.mem_map_of_mem (f := Prod.fst) (mem_of_get? hvalue))

/-- Fields in the order of some keys are found again by a look-up of each. -/
theorem eq_filterMap_get? {ks : List Text} (hks : ks.Nodup)
    (h : fields.keys.Sublist ks) :
    fields = ks.filterMap fun key => (fields.get? key).map fun value => (key, value) := by
  induction ks generalizing fields with
  | nil => exact List.map_eq_nil_iff.1 (List.sublist_nil.1 h)
  | cons k ks ih =>
    obtain ⟨hk, hks'⟩ := List.nodup_cons.1 hks
    rcases List.sublist_cons_iff.1 h with hlater | ⟨_, hkeys, hlater⟩
    · have hnone : fields.get? k = none := get?_eq_none fun hmem => hk (hlater.subset hmem)
      rw [List.filterMap_cons_none (by rw [hnone]; rfl)]
      exact ih hks' hlater
    · obtain ⟨⟨k', value⟩, fields, rfl, rfl, rfl⟩ := List.map_eq_cons_iff.1 hkeys
      have hvalue : Fields.get? k' ((k', value) :: fields) = some value := if_pos rfl
      rw [List.filterMap_cons_some (by rw [hvalue]; rfl)]
      refine congrArg _ ((ih hks' hlater).trans (List.filterMap_congr fun key hkey => ?_))
      rw [Fields.get?, if_neg fun heq : k' = key => hk (heq ▸ hkey)]

/-- Without given dependencies, every field but the name and the module is a truthy one of the
package. -/
theorem field?_eq_truthy (hname : key ≠ nameKey) (hmain : key ≠ mainKey) :
    m.field? name none key = m.truthy? key := by
  by_cases hdeps : key = dependenciesKey
  · subst hdeps
    rw [field?_dependencies]
    cases m.truthy? dependenciesKey <;> rfl
  · exact field?_of_copied m name none (by simp [hname, hmain, hdeps])

theorem field?_eq_some {v : Json} (h : m.field? name none key = some v) :
    m.get? key = some v ∨ ∃ s, v = .string s := by
  by_cases hname : key = nameKey
  · subst hname
    rw [field?_name] at h
    split at h
    · exact .inl h
    · exact .inr ⟨name, (Option.some.inj h).symm⟩
  · by_cases hmain : key = mainKey
    · subst hmain
      rw [field?_main] at h
      exact .inr ⟨entryModule, (Option.some.inj h).symm⟩
    · rw [field?_eq_truthy hname hmain, truthy?, Option.filter_eq_some_iff] at h
      exact .inl h.1

theorem isSound_synthesize {room : Nat} (h : m.fields.IsSound room) :
    (m.synthesize name none).IsSound room := by
  refine ⟨nodup_keys_synthesize m name none, fun field hfield => ?_⟩
  obtain ⟨key, -, hfield⟩ := List.mem_filterMap.1 hfield
  obtain ⟨v, hv, rfl⟩ := Option.map_eq_some_iff.1 hfield
  rcases field?_eq_some hv with hget | ⟨s, rfl⟩
  · exact h.values _ (mem_of_get? hget)
  · exact sound_string room s

/-- The output manifest has no number that the package's manifest does not have. -/
theorem occurs_of_synthesize {n : Number} (h : Occurs n (.object (m.synthesize name none))) :
    Occurs n (.object m.fields) := by
  cases h with
  | field hfield hn =>
    obtain ⟨key, -, hfield⟩ := List.mem_filterMap.1 hfield
    obtain ⟨v, hv, rfl⟩ := Option.map_eq_some_iff.1 hfield
    rcases field?_eq_some hv with hget | ⟨s, rfl⟩
    · exact .field (mem_of_get? hget) hn
    · cases hn

/-- A manifest made of an output manifest is that manifest. -/
theorem synthesize_synthesize (m : Manifest) (name : Text) (path : Path) :
    (Manifest.mk path (m.synthesize name none)).synthesize name none = m.synthesize name none := by
  have hfield : ∀ key ∈ keys, (Manifest.mk path (m.synthesize name none)).field? name none key =
      m.field? name none key := by
    intro key hkey
    have hget : (Manifest.mk path (m.synthesize name none)).get? key = m.field? name none key :=
      get?_synthesize hkey
    by_cases hname : key = nameKey
    · subst hname
      rw [field?_name, hget, field?_name]
      split <;> rfl
    · by_cases hmain : key = mainKey
      · subst hmain
        rw [field?_main, field?_main]
      · rw [field?_eq_truthy hname hmain, truthy?, hget, field?_eq_truthy hname hmain, truthy?,
          Option.filter_filter]
        simp
  unfold synthesize at hfield ⊢
  exact List.filterMap_congr fun key hkey => by rw [hfield key hkey]

/-! ### The text of a manifest -/

theorem parse_eq_ok {text : Text} :
    parse path text = .ok m ↔ Json.parse? text = some (.object m.fields) ∧ m.path = path := by
  unfold parse
  split
  · rename_i hnone
    simp [hnone]
  · rename_i fields hobject
    rw [hobject]
    constructor
    · intro h
      obtain rfl := Except.ok.inj h
      exact ⟨rfl, rfl⟩
    · rintro ⟨hfields, rfl⟩
      obtain rfl : fields = m.fields := by simpa using hfields
      rfl
  · rename_i v hshape hv
    constructor
    · intro h
      cases h
    · rintro ⟨hfields, -⟩
      exact absurd (Option.some.inj (hv.symm.trans hfields)) (hshape _)

/-- The fields of an output manifest are read back from its text. -/
theorem parse_text (path : Path) (h : Sound maxDepth (.object fields))
    (hreal : ∀ minus x, Occurs (.real minus x) (.object fields) → (Number.real minus x).IsReread) :
    parse path (text fields) = .ok ⟨path, fields⟩ := by
  have hend : tokens? Text.lineEnd = some [] := by rw [Text.lineEnd, tokens?_blank rfl, tokens?_nil]
  exact parse_eq_ok.2 ⟨parse?_write .pretty h.fits (h.isReread hreal) hend
    (endsNumber_cons.2 (by decide)), rfl⟩

/-- The manifest of the output is read back from its text, with its fields in their order, and what is
read makes the same text again. Numbers that are no integers have to be read back as they were
written, which the reader does not promise for those with 17 digits. -/
theorem synthesize_rereads (path path' : Path) (source name : Text) {m : Manifest}
    (hparse : parse path source = .ok m)
    (hreal : ∀ minus x, Occurs (.real minus x) (.object (m.synthesize name none)) →
      (Number.real minus x).IsReread) :
    ∃ reread, parse path' (text (m.synthesize name none)) = .ok reread ∧
      reread.fields = m.synthesize name none ∧
      text (reread.synthesize name none) = text (m.synthesize name none) := by
  have hsound : Sound maxDepth (.object m.fields) := sound_of_parse (parse_eq_ok.1 hparse).1
  have hout : Sound maxDepth (.object (m.synthesize name none)) :=
    (isSound_synthesize hsound.isSound_fields).object
  refine ⟨_, parse_text path' hout hreal, rfl, ?_⟩
  rw [synthesize_synthesize]

/-- The number 0.5. -/
def half : Number := .real false ⟨4503599627370496, -53⟩

def halfManifest : Manifest := ⟨[], [("license".toList, .number half), ("name".toList, .string [])]⟩

theorem synthesize_rereads_half :
    parse [] "\x7b\n  \"license\": 0.5,\n  \"name\": \"\"\n\x7d\n".toList = .ok halfManifest ∧
    (∀ minus x, Occurs (.real minus x) (.object (halfManifest.synthesize [] none)) →
      (Number.real minus x).IsReread) ∧
    ∃ reread, parse [] (text (halfManifest.synthesize [] none)) = .ok reread ∧
      reread.fields = [("name".toList, .string []), ("license".toList, .number half),
        ("main".toList, .string entryModule)] ∧
      text (reread.synthesize [] none) = text (halfManifest.synthesize [] none) := by
  have hfields : Fields.IsSound 126 halfManifest.fields := by
    refine ⟨by decide, fun field hfield => ?_⟩
    simp only [halfManifest, List.mem_cons, List.not_mem_nil, or_false] at hfield
    rcases hfield with rfl | rfl
    · exact sound_number 126 trivial
    · exact sound_string 126 []
  have hhalf : half.IsReread := by decide +kernel
  have hreal : ∀ minus x, Occurs (.real minus x) (.object halfManifest.fields) →
      (Number.real minus x).IsReread := by
    intro minus x h
    cases h with
    | field hfield h =>
      simp only [halfManifest, List.mem_cons, List.not_mem_nil, or_false] at hfield
      rcases hfield with rfl | rfl
      · cases h
        exact hhalf
      · cases h
  have htext : text halfManifest.fields =
      "\x7b\n  \"license\": 0.5,\n  \"name\": \"\"\n\x7d\n".toList := by decide +kernel
  have hparse : parse [] _ = .ok halfManifest := htext ▸ parse_text [] hfields.object hreal
  have hreal' : ∀ minus x, Occurs (.real minus x) (.object (halfManifest.synthesize [] none)) →
      (Number.real minus x).IsReread := fun minus x h => hreal minus x (occurs_of_synthesize h)
  obtain ⟨reread, hreread, hsame, hagain⟩ := synthesize_rereads [] [] _ [] hparse hreal'
  exact ⟨hparse, hreal', reread, hreread, hsame, hagain⟩

/-- The number nearest to 412.14153758973555 is not read back from that text. -/
example : ¬(Number.real false ⟨7250470605910298, -44⟩).IsReread := by decide +kernel

end ModulePack.Manifest
