import ModulePack.Proofs.Disk.Walk
import ModulePack.Proofs.Path.Pieces

/-!
# Where paths lead

`d.Reaches p m l`: the path `p` leads to the directory `l` and leaves `m` links. One more name
behind such a path is one step from `l` (`Reaches.locate_append`), and there is no other way to get
past a path (`reaches_of_locate_append`). Where paths lead is kept by disks that have the
directories and links on the way (`Reaches.mono`, `find_of_le`, `find_of_visits`).
-/

namespace ModulePack.Disk

variable {d e : Disk} {l there zone : Location} {x : Text} {xs : List Text} {n m : Nat}
  {ending : Ending} {node : Node} {target p : Path} {fault : Fault}

/-- A path that the file system looks at. -/
structure Allowed (p : Path) : Prop where
  no_nul : '\x00' ∉ p
  ne_nil : p ≠ []
  short : p.byteCount ≤ maxPath

theorem locate_of_allowed (h : Allowed p) :
    d.locate ending p = d.walk ending maxLinks [] (steps p) := by
  rw [locate, if_neg h.no_nul, if_neg h.ne_nil, if_neg (Nat.not_lt.2 h.short)]

theorem allowed_of_locate (h : d.locate ending p = .ok l) : Allowed p := by
  unfold locate at h
  split at h
  · cases h
  rename_i hnul
  split at h
  · cases h
  rename_i hnil
  split at h
  · cases h
  rename_i hshort
  exact ⟨hnul, hnil, Nat.le_of_not_lt hshort⟩

/-- No file system looks at any other path. -/
theorem locate_of_not_allowed (hp : p ≠ []) (h : ¬Allowed p) :
    ∃ fault, fault ≠ .noSuchFile ∧
      ∀ (d : Disk) (ending : Ending), d.locate ending p = .error fault := by
  by_cases hnul : '\x00' ∈ p
  · exact ⟨.nulInName, by simp, fun _ _ => if_pos hnul⟩
  by_cases hshort : maxPath < p.byteCount
  · exact ⟨.nameTooLong, by simp, fun _ _ => by rw [locate, if_neg hnul, if_neg hp, if_pos hshort]⟩
  exact absurd ⟨hnul, hp, Nat.le_of_not_lt hshort⟩ h

theorem find_eq_ok_iff :
    d.find p = .ok (l, node) ↔ d.locate .follow p = .ok l ∧ d.get? l = some node := by
  unfold find
  cases d.locate .follow p with
  | error fault => simp [bind, Except.bind]
  | ok k =>
    simp only [bind, Except.bind, Except.ok.injEq]
    constructor
    · intro h
      split at h
      · rename_i other hk
        cases h
        exact ⟨rfl, hk⟩
      · cases h
    · rintro ⟨rfl, hk⟩
      rw [hk]

theorem find_unique {other : Node} (h : d.find p = .ok (l, node))
    (h' : d.find p = .ok (there, other)) : l = there := by
  rw [h] at h'
  exact (Prod.mk.inj (Except.ok.inj h')).1

theorem allowed_of_find (h : d.find p = .ok (l, node)) : Allowed p :=
  allowed_of_locate (find_eq_ok_iff.1 h).1

/-! ### Directories on the way -/

/-- The path `p` leads to the directory `l` and leaves `m` links for what follows. -/
def Reaches (d : Disk) (p : Path) (m : Nat) (l : Location) : Prop :=
  Passes d maxLinks [] (Path.names p) m l

theorem Passes.of_append_slash {here : Location} (h : Passes d n here (xs ++ [[]]) m there) :
    Passes d n here xs m there := by
  generalize hys : xs ++ [[]] = ys at h
  induction h generalizing xs with
  | nil => simp at hys
  | @stay n m here there step rest hstep hrest ih =>
    cases xs with
    | nil =>
      obtain ⟨-, rfl⟩ : [] = step ∧ [] = rest := by simpa using hys
      exact hrest
    | cons x xs =>
      obtain ⟨rfl, rfl⟩ : x = step ∧ xs ++ [[]] = rest := by simpa using hys
      exact .stay hstep (ih rfl)
  | @up n m here there rest hrest ih =>
    cases xs with
    | nil => simp at hys
    | cons x xs =>
      obtain ⟨rfl, rfl⟩ : x = ['.', '.'] ∧ xs ++ [[]] = rest := by simpa using hys
      exact .up (ih rfl)
  | @enter n m here there step rest hstep hshort hdir hrest ih =>
    cases xs with
    | nil =>
      obtain ⟨rfl, -⟩ : [] = step ∧ [] = rest := by simpa using hys
      exact absurd rfl hstep.ne_nil
    | cons x xs =>
      obtain ⟨rfl, rfl⟩ : x = step ∧ xs ++ [[]] = rest := by simpa using hys
      exact .enter hstep hshort hdir (ih rfl)
  | @jump n m here there step rest target hstep hshort hlink hrest ih =>
    cases xs with
    | nil =>
      obtain ⟨rfl, -⟩ : [] = step ∧ [] = rest := by simpa using hys
      exact absurd rfl hstep.ne_nil
    | cons x xs =>
      obtain ⟨rfl, rfl⟩ : x = step ∧ xs ++ [[]] = rest := by simpa using hys
      exact .jump hstep hshort hlink (ih (by simp))

theorem passes_steps_iff : Passes d n [] (steps p) m l ↔ Passes d n [] (Path.names p) m l := by
  rcases steps_eq p with h | h
  · rw [h]
  · rw [h]
    exact ⟨Passes.of_append_slash, fun hp => hp.append (.stay rfl .nil)⟩

theorem reaches_of_find (h : d.find p = .ok (l, .directory)) : ∃ m, d.Reaches p m l := by
  obtain ⟨hw, hl⟩ := find_eq_ok_iff.1 h
  rw [locate_of_allowed (allowed_of_find h)] at hw
  obtain ⟨m, hp⟩ := passes_of_walk hw hl
  exact ⟨m, passes_steps_iff.1 hp⟩

namespace Reaches

theorem directory (h : d.Reaches p m l) (hd : d.WellFormed) : d.get? l = some .directory :=
  Passes.directory h hd (by simp)

theorem mono (h : d.Reaches p m l) (hde : Ways d e) : e.Reaches p m l := Passes.mono h hde

theorem links_le (h : d.Reaches p m l) : m ≤ maxLinks := Passes.links_le h

theorem find (h : d.Reaches p m l) (hd : d.WellFormed) (hp : Allowed p) :
    d.find p = .ok (l, .directory) :=
  find_eq_ok_iff.2 ⟨by rw [locate_of_allowed hp, (passes_steps_iff.2 h).walk_follow],
    h.directory hd⟩

theorem unique {m' : Nat} {l' : Location} (h : d.Reaches p m l) (h' : d.Reaches p m' l') :
    l = l' := by
  have := Passes.walk_follow h
  rw [Passes.walk_follow h'] at this
  exact (Except.ok.inj this).symm

theorem locate_append (h : d.Reaches p m l) (hx : IsFileName x)
    (ha : Allowed (Path.append p x)) :
    d.locate ending (Path.append p x) = d.walk ending m l [x] := by
  rw [locate_of_allowed ha, steps_append p hx.ne_nil hx.no_slash]
  exact Passes.walk_append h (by simp) (by simp [hx.ne_nil])

theorem append (h : d.Reaches p m l) (hx : IsFileName x)
    (hdir : d.get? (l ++ [x]) = some .directory) : d.Reaches (Path.append p x) m (l ++ [x]) := by
  rw [Reaches, Path.names_append p hx.ne_nil hx.no_slash]
  exact Passes.append h (.enter hx.isEntryStep hx.short hdir .nil)

end Reaches

/-- Only past a directory does a path lead to an entry of it. -/
theorem reaches_of_locate_append (hx : IsFileName x)
    (h : d.locate ending (Path.append p x) = .ok l) :
    ∃ m there, d.Reaches p m there ∧ d.walk ending m there [x] = .ok l := by
  rw [locate_of_allowed (allowed_of_locate h), steps_append p hx.ne_nil hx.no_slash] at h
  exact passes_of_walk_concat hx.isEntryStep h

/-! ### The last step -/

theorem walk_singleton (hx : IsFileName x) (hl : ∀ target, d.get? (l ++ [x]) ≠ some (.link target)) :
    d.walk ending n l [x] = .ok (l ++ [x]) := by
  rw [walk_entry hx.isEntryStep hx.short (by simp), walkEntry]
  split
  · rfl
  · rename_i target hlink
    exact absurd hlink (hl target)
  · exact walk_nil
  · rfl

theorem walk_keep_singleton (hx : IsFileName x) : d.walk .keep n l [x] = .ok (l ++ [x]) := by
  rw [walk_entry hx.isEntryStep hx.short (by simp), walkEntry]
  split
  · rfl
  · simp
  · exact walk_nil
  · rfl

/-! ### Disks that hold more -/

theorem find_of_visits
    (hv : ∀ v ∈ d.visits maxLinks [] (steps p), ∀ node, d.get? v = some node →
      e.get? v = some node)
    (h : d.find p = .ok (l, node)) (hl : e.get? l = some node) : e.find p = .ok (l, node) := by
  have ha := allowed_of_find h
  obtain ⟨hw, hnode⟩ := find_eq_ok_iff.1 h
  rw [locate_of_allowed ha] at hw
  exact find_eq_ok_iff.2 ⟨by rw [locate_of_allowed ha, walk_of_visits hv hw hnode], hl⟩

theorem find_of_le (hde : d ≤ e) (h : d.find p = .ok (l, node)) : e.find p = .ok (l, node) :=
  find_of_visits (fun v _ => hde v) h (hde _ _ (find_eq_ok_iff.1 h).2)

theorem locate_of_le (hde : d ≤ e) (h : d.locate ending p = .ok l) (hl : d.get? l = some node) :
    e.locate ending p = .ok l := by
  have ha := allowed_of_locate h
  rw [locate_of_allowed ha] at h ⊢
  exact walk_of_le hde h hl

theorem readBytes_eq_ok_iff {content : Bytes} :
    d.readBytes p = .ok content ↔ ∃ l, d.find p = .ok (l, .file content) := by
  unfold readBytes
  cases h : d.find p with
  | error fault => simp [bind, Except.bind]
  | ok entry =>
    obtain ⟨l, node⟩ := entry
    cases node <;> simp [bind, Except.bind]

theorem readBytes_of_le (hde : d ≤ e) {content : Bytes} (h : d.readBytes p = .ok content) :
    e.readBytes p = .ok content := by
  obtain ⟨l, hl⟩ := readBytes_eq_ok_iff.1 h
  exact readBytes_eq_ok_iff.2 ⟨l, find_of_le hde hl⟩

theorem find_of_readText {text : Text} (h : d.readText p = .ok text) :
    ∃ l content, d.find p = .ok (l, .file content) := by
  unfold readText at h
  cases hbytes : d.readBytes p with
  | error fault => rw [hbytes] at h; cases h
  | ok content =>
    obtain ⟨l, hl⟩ := readBytes_eq_ok_iff.1 hbytes
    exact ⟨l, content, hl⟩

theorem readText_of_find {text : Text} (h : d.find p = .ok (l, .file (Bytes.ofText text))) :
    d.readText p = .ok text := by
  have hbytes : d.readBytes p = .ok (Bytes.ofText text) := readBytes_eq_ok_iff.2 ⟨l, h⟩
  simp [readText, hbytes, bind, Except.bind]

theorem list_eq_ok_iff {names : List Text} :
    d.list p = .ok names ↔ ∃ l, d.find p = .ok (l, .directory) ∧ names = d.names l := by
  unfold list
  cases h : d.find p with
  | error fault => simp [bind, Except.bind]
  | ok entry =>
    obtain ⟨l, node⟩ := entry
    cases node <;> simp [bind, Except.bind, eq_comm]

end ModulePack.Disk
