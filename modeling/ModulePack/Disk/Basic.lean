import ModulePack.Bytes
import ModulePack.Failure

/-!
# The file system

A disk maps locations, the names on the way from the root, to what stands there. Its entries are in
order of location, so that a disk is determined by its look-ups (`Disk.ext_get?`) and a directory
comes right before what is in it. `get?_put` and `get?_keep` describe the two ways of changing it.
-/

namespace ModulePack

/-- The names from the root down. -/
abbrev Location := List Text

def Location.path (l : Location) : Path := '/' :: Text.join ['/'] l

inductive Node where
  | file (content : Bytes)
  | directory
  | link (target : Path)
  deriving DecidableEq

structure Disk where
  entries : List (Location × Node)
  /-- Every location once, in order, and none of them the root. -/
  sorted : ([] :: entries.map Prod.fst).Pairwise (· < ·)

namespace Disk

def empty : Disk := ⟨[], by simp⟩

/-- The node at a location in a list of entries. Long locations begin alike more often than not, so
their lengths are compared first. -/
def find? (l : Location) (entries : List (Location × Node)) : Option Node :=
  let length := l.length
  (entries.find? fun (k, _) => k.length == length && k == l).map Prod.snd

theorem find?_cons (l k : Location) (node : Node) (rest : List (Location × Node)) :
    find? l ((k, node) :: rest) = if k = l then some node else find? l rest := by
  by_cases h : k = l <;> simp [find?, h]

@[simp] theorem find?_nil (l : Location) : find? l [] = none := rfl

/-- What stands at a location; the root is always a directory. -/
def get? (d : Disk) (l : Location) : Option Node :=
  if l = [] then some .directory else find? l d.entries

/-- An entry put in its place, instead of the one with its location if there is one. -/
def insert (l : Location) (node : Node) : List (Location × Node) → List (Location × Node)
  | [] => [(l, node)]
  | (k, old) :: rest =>
    if l < k then (l, node) :: (k, old) :: rest
    else if l = k then (l, node) :: rest
    else (k, old) :: insert l node rest

theorem nil_lt {l : Location} (h : l ≠ []) : [] < l := by
  cases l with
  | nil => exact absurd rfl h
  | cons name rest => exact List.nil_lt_cons name rest

theorem pairwise_insert {low l : Location} (node : Node) (hl : low < l)
    {entries : List (Location × Node)} (h : (low :: entries.map Prod.fst).Pairwise (· < ·)) :
    (low :: (insert l node entries).map Prod.fst).Pairwise (· < ·) := by
  induction entries generalizing low with
  | nil => simpa [insert] using hl
  | cons entry rest ih =>
    obtain ⟨k, old⟩ := entry
    obtain ⟨hlow, hrest⟩ := List.pairwise_cons.1 h
    have hk : low < k := hlow k (by simp)
    unfold insert
    split
    · rename_i hlk
      refine List.pairwise_cons.2 ⟨?_, List.pairwise_cons.2 ⟨?_, hrest⟩⟩
      · intro x hx
        rcases List.mem_cons.1 hx with rfl | hx
        · exact hl
        · exact hlow x hx
      · intro x hx
        rcases List.mem_cons.1 hx with rfl | hx
        · exact hlk
        · exact List.lt_trans hlk ((List.pairwise_cons.1 hrest).1 x hx)
    · split
      · rename_i heq
        subst heq
        exact h
      · rename_i hlk hne
        have hkl : k < l := by
          rcases List.le_total k l with hle | hle
          · exact Decidable.byContradiction fun hn => hne (List.le_antisymm hn hle)
          · exact Decidable.byContradiction fun hn => hne (List.le_antisymm hn hlk)
        have := ih hkl hrest
        refine List.pairwise_cons.2 ⟨?_, this⟩
        intro x hx
        rcases List.mem_cons.1 hx with rfl | hx
        · exact hk
        · exact List.lt_trans hk ((List.pairwise_cons.1 this).1 x hx)

/-- A node put at a location; at the root it has no effect. -/
def put (d : Disk) (l : Location) (node : Node) : Disk :=
  if h : l = [] then d
  else ⟨insert l node d.entries, pairwise_insert node (nil_lt h) d.sorted⟩

/-- The disk with only those entries whose location passes a test. -/
def keep (d : Disk) (test : Location → Bool) : Disk where
  entries := d.entries.filter fun entry => test entry.1
  sorted := d.sorted.sublist (.cons_cons _ (List.filter_sublist.map _))

/-! ### Look-ups -/

theorem find?_insert (l k : Location) (node : Node) {entries : List (Location × Node)}
    (h : (entries.map Prod.fst).Pairwise (· < ·)) :
    find? k (insert l node entries) = if l = k then some node else find? k entries := by
  induction entries with
  | nil => simp [insert, find?_cons]
  | cons entry rest ih =>
    obtain ⟨j, old⟩ := entry
    obtain ⟨hj, hrest⟩ := List.pairwise_cons.1 h
    unfold insert
    split
    · simp [find?_cons]
    · split
      · rename_i heq
        subst heq
        by_cases hlk : l = k <;> simp [find?_cons, hlk]
      · rename_i hne
        simp only [find?_cons, ih hrest]
        by_cases hjk : j = k
        · subst hjk
          simp [hne]
        · simp [hjk]

theorem find?_filter (test : Location → Bool) (k : Location) (entries : List (Location × Node)) :
    find? k (entries.filter fun entry => test entry.1) =
      if test k then find? k entries else none := by
  induction entries with
  | nil => simp
  | cons entry rest ih =>
    obtain ⟨j, node⟩ := entry
    by_cases htest : test j = true
    · simp only [List.filter_cons, htest, if_true, find?_cons, ih]
      by_cases hjk : j = k
      · subst hjk
        simp [htest]
      · simp [hjk]
    · rw [List.filter_cons_of_neg (by simpa using htest), ih]
      by_cases hjk : j = k
      · subst hjk
        simp [htest]
      · simp [find?_cons, hjk]

@[simp] theorem get?_nil (d : Disk) : d.get? [] = some .directory := by simp [get?]

theorem get?_put (d : Disk) (l k : Location) (node : Node) :
    (d.put l node).get? k = if l = k ∧ l ≠ [] then some node else d.get? k := by
  by_cases hk : k = []
  · subst hk
    by_cases hl : l = [] <;> simp [get?, hl]
  · by_cases hl : l = []
    · simp [put, hl]
    · have := find?_insert l k node (List.pairwise_cons.1 d.sorted).2
      simp [put, hl, get?, hk, this]

theorem get?_keep (d : Disk) (test : Location → Bool) (k : Location) :
    (d.keep test).get? k = if test k ∨ k = [] then d.get? k else none := by
  by_cases hk : k = []
  · simp [hk]
  · simp [get?, keep, hk, find?_filter]

theorem find?_eq_some_iff {l : Location} {node : Node} {entries : List (Location × Node)}
    (h : (entries.map Prod.fst).Pairwise (· < ·)) :
    find? l entries = some node ↔ (l, node) ∈ entries := by
  induction entries with
  | nil => simp
  | cons entry rest ih =>
    obtain ⟨k, old⟩ := entry
    obtain ⟨hk, hrest⟩ := List.pairwise_cons.1 h
    by_cases heq : k = l
    · subst heq
      have hnot : (k, node) ∉ rest := fun hmem =>
        List.lt_irrefl k (hk k (List.mem_map_of_mem (f := Prod.fst) hmem))
      simp [find?_cons, hnot, eq_comm]
    · have : ¬l = k := fun h => heq h.symm
      simp [find?_cons, heq, this, ih hrest]

/-- A disk is determined by what stands where. -/
theorem ext_get? {d e : Disk} (h : ∀ l, d.get? l = e.get? l) : d = e := by
  have key : ∀ (xs ys : List (Location × Node)),
      ([] :: xs.map Prod.fst).Pairwise (· < ·) → ([] :: ys.map Prod.fst).Pairwise (· < ·) →
      (∀ l, l ≠ [] → find? l xs = find? l ys) → ∀ p ∈ xs, p ∈ ys := by
    intro xs ys hxs hys hfind p hp
    have hne : p.1 ≠ [] := by
      intro hnil
      have := (List.pairwise_cons.1 hxs).1 p.1 (List.mem_map_of_mem hp)
      rw [hnil] at this
      exact List.lt_irrefl _ this
    have := (find?_eq_some_iff (List.pairwise_cons.1 hxs).2).2 (show (p.1, p.2) ∈ xs from hp)
    rw [hfind p.1 hne] at this
    exact (find?_eq_some_iff (List.pairwise_cons.1 hys).2).1 this
  have hfind : ∀ l, l ≠ [] → find? l d.entries = find? l e.entries := by
    intro l hl
    simpa [get?, hl] using h l
  have hd := (List.pairwise_map.1 (List.pairwise_cons.1 d.sorted).2)
  have he := (List.pairwise_map.1 (List.pairwise_cons.1 e.sorted).2)
  have hsub := key _ _ d.sorted e.sorted hfind
  have hsub' := key _ _ e.sorted d.sorted fun l hl => (hfind l hl).symm
  have hnodup : ∀ {xs : List (Location × Node)},
      xs.Pairwise (fun a b => a.1 < b.1) → xs.Nodup := by
    intro xs hxs
    refine List.Pairwise.imp ?_ hxs
    rintro a b hlt rfl
    exact List.lt_irrefl _ hlt
  have hperm : d.entries.Perm e.entries :=
    (List.perm_ext_iff_of_nodup (hnodup hd) (hnodup he)).2 fun p => ⟨hsub p, hsub' p⟩
  have heq : d.entries = e.entries := by
    refine List.Perm.eq_of_pairwise ?_ hd he hperm
    intro a b _ _ hab hba
    exact absurd (List.lt_trans hab hba) (List.lt_irrefl _)
  cases d
  cases e
  simp_all

/-- Whether `l` lies strictly below `directory`. -/
def isBelow (directory l : Location) : Bool := directory.isPrefixOf l && l != directory

/-- The disk without anything below a location. -/
def removeBelow (d : Disk) (l : Location) : Disk := d.keep fun k => !isBelow l k

/-- The disk without a location and anything below it. -/
def remove (d : Disk) (l : Location) : Disk := d.keep fun k => !l.isPrefixOf k

/-- All entries strictly below a location, a directory before what is in it. -/
def below (d : Disk) (l : Location) : List (Location × Node) :=
  d.entries.filter fun entry => isBelow l entry.1

def names (d : Disk) (l : Location) : List Text :=
  d.entries.filterMap fun entry => if entry.1.dropLast = l then entry.1.getLast? else none

end Disk

end ModulePack
