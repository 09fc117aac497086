import Mathlib.Data.List.Basic
import Mathlib.Data.List.Induction
import Mathlib.Data.List.Nodup
import ModulePack.Proofs.Path.Pieces

/-!
# File systems as trees

`WellFormed`: every entry of a disk has a proper name and stands in a directory. An operating
system keeps its file systems so, and every change that a build makes does: one lemma for each of
`put`, `remove` and `removeBelow`. Disks are ordered by what stands on them: `d ≤ e` says that `e`
holds everything that `d` holds.
-/

namespace ModulePack.Disk

variable {d e : Disk} {l k zone : Location} {x : Text} {node : Node}

/-! ### What lies below a location -/

theorem isBelow_iff : isBelow zone l = true ↔ ∃ x r, l = zone ++ x :: r := by
  simp only [isBelow, Bool.and_eq_true, List.isPrefixOf_iff_prefix, bne_iff_ne]
  constructor
  · rintro ⟨⟨r, rfl⟩, hne⟩
    cases r with
    | nil => simp at hne
    | cons x r => exact ⟨x, r, rfl⟩
  · rintro ⟨x, r, rfl⟩
    exact ⟨List.prefix_append .., by simp⟩

@[simp] theorem isBelow_self : isBelow l l = false := by simp [isBelow]

@[simp] theorem isBelow_nil : isBelow zone [] = false := by
  cases zone <;> simp [isBelow]

@[simp] theorem isBelow_append_cons (r : Location) : isBelow l (l ++ x :: r) = true :=
  isBelow_iff.2 ⟨x, r, rfl⟩

theorem isBelow_append (h : isBelow zone l = true) (r : Location) : isBelow zone (l ++ r) = true := by
  obtain ⟨x, s, rfl⟩ := isBelow_iff.1 h
  simp

theorem isBelow_of_append {r : Location} (h : isBelow (zone ++ r) l = true) :
    isBelow zone l = true := by
  obtain ⟨x, r', rfl⟩ := isBelow_iff.1 h
  obtain ⟨y, t, hcons⟩ := List.exists_cons_of_ne_nil (l := r ++ x :: r') (by simp)
  rw [List.append_assoc, hcons]
  exact isBelow_append_cons t

/-- What lies below a location is one of its entries, or below one. -/
theorem isBelow_concat_iff :
    isBelow zone (l ++ [x]) = true ↔ l = zone ∨ isBelow zone l = true := by
  constructor
  · intro h
    obtain ⟨y, r, heq⟩ := isBelow_iff.1 h
    rcases List.eq_nil_or_concat' r with rfl | ⟨r, z, rfl⟩
    · exact .inl (List.append_inj' heq rfl).1
    · have heq' : l ++ [x] = (zone ++ y :: r) ++ [z] := by simpa using heq
      rw [(List.append_inj' heq' rfl).1]
      exact .inr (isBelow_append_cons r)
  · rintro (rfl | h)
    · simp
    · exact isBelow_append h [x]

theorem isBelow_dropLast (h : isBelow zone l = false) : isBelow zone l.dropLast = false := by
  rcases List.eq_nil_or_concat' l with rfl | ⟨l, x, rfl⟩
  · exact h
  · rw [List.dropLast_concat]
    by_contra hb
    rw [isBelow_append (by simpa using hb) [x]] at h
    cases h

theorem get?_removeBelow (d : Disk) (l k : Location) :
    (d.removeBelow l).get? k = if isBelow l k then none else d.get? k := by
  rw [removeBelow, get?_keep]
  by_cases hk : k = []
  · simp [hk]
  · cases isBelow l k <;> simp [hk]

theorem get?_remove (d : Disk) {l : Location} (hl : l ≠ []) (k : Location) :
    (d.remove l).get? k = if l <+: k then none else d.get? k := by
  rw [remove, get?_keep]
  by_cases hk : k = []
  · subst hk
    simp [hl]
  · simp only [← List.isPrefixOf_iff_prefix]
    cases l.isPrefixOf k <;> simp [hk]

theorem get?_eq_some_iff (hl : l ≠ []) : d.get? l = some node ↔ (l, node) ∈ d.entries := by
  rw [get?, if_neg hl, find?_eq_some_iff (List.pairwise_cons.1 d.sorted).2]

theorem get?_of_mem (h : (l, node) ∈ d.entries) : d.get? l = some node := by
  refine (get?_eq_some_iff fun hnil => ?_).2 h
  have := (List.pairwise_cons.1 d.sorted).1 l (List.mem_map_of_mem h)
  rw [hnil] at this
  exact List.lt_irrefl _ this

theorem mem_names : x ∈ d.names l ↔ ∃ node, d.get? (l ++ [x]) = some node := by
  simp only [get?_eq_some_iff (show l ++ [x] ≠ [] by simp), names, List.mem_filterMap]
  constructor
  · rintro ⟨⟨k, node⟩, hmem, h⟩
    simp only [Option.ite_none_right_eq_some] at h
    obtain ⟨rfl, hlast⟩ := h
    exact ⟨node, by rwa [List.dropLast_append_getLast? x (by simp [hlast])]⟩
  · rintro ⟨node, hmem⟩
    exact ⟨_, hmem, by simp⟩

theorem names_congr (h : ∀ x, d.get? (l ++ [x]) = e.get? (l ++ [x])) : d.names l = e.names l := by
  have hkeep : ∀ f : Disk, f.names l =
      (f.keep fun k => decide (k.dropLast = l ∧ k ≠ [])).names l := by
    intro f
    rw [names, names, keep, List.filterMap_filter]
    refine List.filterMap_congr fun entry _ => ?_
    by_cases hnil : entry.1 = []
    · simp [hnil]
    · simp [hnil]
  have heq : (d.keep fun k => decide (k.dropLast = l ∧ k ≠ [])) =
      e.keep fun k => decide (k.dropLast = l ∧ k ≠ []) := by
    refine ext_get? fun k => ?_
    simp only [get?_keep, decide_eq_true_eq]
    rcases List.eq_nil_or_concat' k with rfl | ⟨r, x, rfl⟩
    · simp
    · by_cases hr : r = l
      · simp [hr, h]
      · simp [hr]
  rw [hkeep d, hkeep e, heq]

theorem names_nodup (d : Disk) (l : Location) : (d.names l).Nodup := by
  have hnames : d.names l = (d.entries.map Prod.fst).filterMap fun k =>
      if k.dropLast = l then k.getLast? else none := by
    simp only [names, List.filterMap_map]
    rfl
  have hkeys : (d.entries.map Prod.fst).Nodup := by
    refine (List.pairwise_cons.1 d.sorted).2.imp ?_
    rintro k _ hlt rfl
    exact List.lt_irrefl k hlt
  rw [hnames]
  refine List.Nodup.filterMap (fun k k' x hk hk' => ?_) hkeys
  simp only [Option.mem_def, Option.ite_none_right_eq_some] at hk hk'
  rw [← List.dropLast_append_getLast? x hk.2, ← List.dropLast_append_getLast? x hk'.2, hk.1, hk'.1]

theorem remove_removeBelow (d : Disk) (l : Location) : (d.removeBelow l).remove l = d.remove l := by
  simp only [removeBelow, remove, keep, List.filter_filter]
  congr 1
  refine List.filter_congr fun entry _ => ?_
  cases h : l.isPrefixOf entry.1 <;> simp [isBelow, h]

/-! ### The order of disks -/

instance : LE Disk := ⟨fun d e => ∀ l node, d.get? l = some node → e.get? l = some node⟩

theorem le_refl (d : Disk) : d ≤ d := fun _ _ h => h

theorem le_trans {f : Disk} (hde : d ≤ e) (hef : e ≤ f) : d ≤ f :=
  fun l node h => hef l node (hde l node h)

theorem removeBelow_le (d : Disk) (l : Location) : d.removeBelow l ≤ d := by
  intro k node h
  rw [get?_removeBelow] at h
  split at h
  · cases h
  · exact h

theorem remove_le (d : Disk) (hl : l ≠ []) : d.remove l ≤ d := by
  intro k node h
  rw [get?_remove d hl] at h
  split at h
  · cases h
  · exact h

theorem le_put (h : d.get? l = none) (node : Node) : d ≤ d.put l node := by
  intro k old hk
  rw [get?_put, if_neg]
  · exact hk
  · rintro ⟨rfl, -⟩
    rw [h] at hk
    cases hk

/-! ### Well-formed disks -/

/-- A name that an entry of a directory can have. -/
structure IsFileName (x : Text) : Prop extends Path.IsName x where
  no_nul : '\x00' ∉ x
  short : x.byteCount ≤ maxName

theorem isFileName_iff : IsFileName x ↔ (x ≠ [] ∧ x ≠ ['.'] ∧ x ≠ ['.', '.'] ∧ '/' ∉ x) ∧
    '\x00' ∉ x ∧ x.byteCount ≤ maxName :=
  ⟨fun ⟨⟨h₁, h₂, h₃, h₄⟩, h₅, h₆⟩ => ⟨⟨h₁, h₂, h₃, h₄⟩, h₅, h₆⟩,
    fun ⟨⟨h₁, h₂, h₃, h₄⟩, h₅, h₆⟩ => ⟨⟨h₁, h₂, h₃, h₄⟩, h₅, h₆⟩⟩

instance (x : Text) : Decidable (IsFileName x) := decidable_of_iff _ isFileName_iff.symm

/-- Every entry has a proper name and stands in a directory. -/
structure WellFormed (d : Disk) : Prop where
  name : ∀ {l : Location} {node : Node}, d.get? l = some node → ∀ x ∈ l, IsFileName x
  parent : ∀ {l : Location} {x : Text} {node : Node}, d.get? (l ++ [x]) = some node →
    d.get? l = some .directory

theorem wellFormed_iff : d.WellFormed ↔ ∀ entry ∈ d.entries,
    (∀ x ∈ entry.1, IsFileName x) ∧ d.get? entry.1.dropLast = some .directory := by
  constructor
  · rintro h ⟨l, node⟩ hmem
    have hsome := get?_of_mem hmem
    refine ⟨h.name hsome, ?_⟩
    rcases List.eq_nil_or_concat' l with rfl | ⟨r, x, rfl⟩
    · simp
    · simpa using h.parent hsome
  · refine fun h => ⟨fun {l node} hl => ?_, fun {l x node} hl => ?_⟩
    · by_cases hnil : l = []
      · simp [hnil]
      · exact (h _ ((get?_eq_some_iff hnil).1 hl)).1
    · simpa using (h _ ((get?_eq_some_iff (by simp)).1 hl)).2

instance (d : Disk) : Decidable d.WellFormed := decidable_of_iff _ wellFormed_iff.symm

namespace WellFormed

theorem directory_of_append (h : d.WellFormed) {r : Location} (hr : r ≠ [])
    (hk : d.get? (l ++ r) = some node) : d.get? l = some .directory := by
  induction r using List.reverseRecOn generalizing node with
  | nil => exact absurd rfl hr
  | append_singleton r x ih =>
    have hparent : d.get? (l ++ r) = some .directory :=
      h.parent (x := x) (by rwa [List.append_assoc])
    cases r with
    | nil => simpa using hparent
    | cons y r => exact ih (by simp) hparent

theorem get?_append_eq_none (h : d.WellFormed) {r : Location} (hr : r ≠ [])
    (hl : d.get? l ≠ some .directory) : d.get? (l ++ r) = none :=
  Option.eq_none_iff_forall_ne_some.2 fun _ hk => hl (h.directory_of_append hr hk)

theorem get?_eq_none_of_prefix (h : d.WellFormed) (hl : d.get? l = none) (hk : l <+: k) :
    d.get? k = none := by
  obtain ⟨r, rfl⟩ := hk
  by_cases hr : r = []
  · rw [hr, List.append_nil, hl]
  · exact h.get?_append_eq_none hr (by simp [hl])

theorem dropLast (h : d.WellFormed) (hl : d.get? l = some .directory) :
    d.get? l.dropLast = some .directory := by
  rcases List.eq_nil_or_concat' l with rfl | ⟨r, x, rfl⟩
  · simp
  · simpa using h.parent hl

theorem isFileName (h : d.WellFormed) (hk : d.get? (l ++ [x]) = some node) : IsFileName x :=
  h.name hk x (by simp)

theorem put (h : d.WellFormed) (hl : d.get? l = some .directory) (hx : IsFileName x)
    (hold : d.get? (l ++ [x]) ≠ some .directory) (node : Node) :
    (d.put (l ++ [x]) node).WellFormed := by
  have hne : l ++ [x] ≠ [] := by simp
  refine ⟨fun {k new} hk y hy => ?_, fun {k y new} hk => ?_⟩
  · rw [get?_put] at hk
    split at hk
    · rename_i heq
      obtain ⟨rfl, -⟩ := heq
      rcases List.mem_append.1 hy with hy | hy
      · exact h.name hl y hy
      · exact List.mem_singleton.1 hy ▸ hx
    · exact h.name hk y hy
  · have hparent : d.get? k = some .directory := by
      rw [get?_put] at hk
      split at hk
      · rename_i heq
        obtain ⟨rfl, -⟩ := List.append_inj' heq.1 rfl
        exact hl
      · exact h.parent hk
    rw [get?_put, if_neg]
    · exact hparent
    · rintro ⟨rfl, -⟩
      exact hold hparent

theorem remove (h : d.WellFormed) (hl : l ≠ []) : (d.remove l).WellFormed := by
  refine ⟨fun {k node} hk => h.name (remove_le d hl k node hk), fun {k x node} hk => ?_⟩
  rw [get?_remove d hl] at hk ⊢
  split at hk
  · cases hk
  · rename_i hnot
    rw [if_neg fun hpre => hnot (hpre.trans (List.prefix_append ..))]
    exact h.parent hk

theorem removeBelow (h : d.WellFormed) (l : Location) : (d.removeBelow l).WellFormed := by
  refine ⟨fun {k node} hk => h.name (removeBelow_le d l k node hk), fun {k x node} hk => ?_⟩
  rw [get?_removeBelow] at hk ⊢
  split at hk
  · cases hk
  · rename_i hnot
    rw [if_neg fun hb => hnot (isBelow_append hb [x])]
    exact h.parent hk

end WellFormed

theorem isFileName_of_mem_names (hd : d.WellFormed) (h : x ∈ d.names l) : IsFileName x := by
  obtain ⟨node, hnode⟩ := mem_names.1 h
  exact hd.isFileName hnode

end ModulePack.Disk
