import Mathlib.Algebra.GroupWithZero.Nat
import ModulePack.Proofs.Disk.Directories

/-!
# Writing files into a directory

A file written behind a path that leads to a directory is an entry of that directory
(`writeBytes_of_reaches`). `putFiles` writes several in turn, where the last of each name stays
(`get?_putFiles`), and `size` counts the bytes at and below a location: each new file adds its own
(`size_put`, `size_putFiles`).
-/

namespace ModulePack

/-- The number of bytes of a file. -/
def Node.size : Node → Nat
  | .file content => content.length
  | _ => 0

namespace Disk

variable {d e : Disk} {l k z : Location} {x : Text} {m : Nat} {p : Path} {node : Node}
  {content : Bytes} {files : List (Text × Text)}

/-! ### One file -/

theorem put_put (d : Disk) (l : Location) (old new : Node) :
    (d.put l old).put l new = d.put l new := by
  refine ext_get? fun k => ?_
  simp only [get?_put]
  split <;> rfl

theorem append_suffix (p : Path) (h : '/' ∉ x) : x <:+ Path.append p x := by
  rcases Path.append_of_no_slash p h with ⟨-, heq⟩ | ⟨q, heq, -⟩
  · exact heq.symm ▸ List.suffix_refl x
  · rw [heq]
    exact ⟨q ++ ['/'], by simp⟩

theorem allowed_append (hp : Allowed p) (hx : IsFileName x)
    (hshort : (Path.append p x).byteCount ≤ maxPath) : Allowed (Path.append p x) := by
  refine ⟨fun hnul => ?_, Path.append_ne_nil p hx.ne_nil hx.no_slash, hshort⟩
  rcases Path.mem_append hnul with h | h | h
  · exact hp.no_nul h
  · cases h
  · exact hx.no_nul h

theorem isFileName_of_locate (hreach : d.Reaches p m l) (hx : Path.IsName x)
    (hlink : ∀ target, d.get? (l ++ [x]) ≠ some (.link target)) {ending : Ending}
    (h : d.locate ending (Path.append p x) = .ok k) :
    IsFileName x ∧ Allowed (Path.append p x) ∧ k = l ++ [x] := by
  have ha := allowed_of_locate h
  have hnul : '\x00' ∉ x := fun hmem => ha.no_nul ((append_suffix p hx.no_slash).subset hmem)
  have hstep : IsEntryStep x := ⟨by simp [isStay, hx.ne_nil, hx.ne_here], hx.ne_up⟩
  have hw := h
  rw [locate_of_allowed ha, steps_append p hx.ne_nil hx.no_slash,
    Passes.walk_append hreach (by simp) (by simp [hx.ne_nil])] at hw
  have hname : IsFileName x := ⟨hx, hnul, (short_of_walk hstep hw).1⟩
  rw [walk_singleton hname hlink] at hw
  exact ⟨hname, ha, (Except.ok.inj hw).symm⟩

/-- A file written behind a path is refused, or an entry of the directory there. -/
theorem writeBytes_of_reaches (hreach : d.Reaches p m l) (hx : Path.IsName x)
    (hlink : ∀ target, d.get? (l ++ [x]) ≠ some (.link target)) :
    (∃ fault, ∀ content, d.writeBytes (Path.append p x) content = .error fault) ∨
    (IsFileName x ∧ Allowed (Path.append p x) ∧ d.get? (l ++ [x]) ≠ some .directory ∧
      ∀ content, d.writeBytes (Path.append p x) content = .ok (d.put (l ++ [x]) (.file content))) := by
  unfold writeBytes
  cases h : d.locate .create (Path.append p x) with
  | error fault => exact .inl ⟨fault, fun _ => rfl⟩
  | ok k =>
    obtain ⟨hname, ha, rfl⟩ := isFileName_of_locate hreach hx hlink h
    by_cases hdir : d.get? (l ++ [x]) = some .directory
    · exact .inl ⟨.isADirectory, fun _ => by simp [bind, Except.bind, hdir]⟩
    · refine .inr ⟨hname, ha, hdir, fun content => ?_⟩
      simp only [bind, Except.bind]

/-- Where a file or nothing stands, a file is written. -/
theorem writeText_of_reaches (hreach : d.Reaches p m l) (hx : IsFileName x)
    (ha : Allowed (Path.append p x)) (hlink : ∀ target, d.get? (l ++ [x]) ≠ some (.link target))
    (hdir : d.get? (l ++ [x]) ≠ some .directory) (text : Text) :
    d.writeText (Path.append p x) text = .ok (d.put (l ++ [x]) (.file (Bytes.ofText text))) := by
  rw [writeText, writeBytes, hreach.locate_append hx ha, walk_singleton hx hlink]
  simp only [bind, Except.bind]

theorem not_exists_of_reaches (hreach : d.Reaches p m l) (hx : IsFileName x)
    (ha : Allowed (Path.append p x)) (hnone : d.get? (l ++ [x]) = none) :
    d.exists? (Path.append p x) = false := by
  rw [exists?, find, hreach.locate_append hx ha, walk_singleton hx (by simp [hnone])]
  simp [bind, Except.bind, hnone, Except.isOk, Except.toBool]

/-! ### Sizes -/

/-- The number of bytes in the files at and below a location. -/
def size (d : Disk) (l : Location) : Nat :=
  (d.entries.map fun entry => if l <+: entry.1 then entry.2.size else 0).sum

theorem sum_insert (f : Location × Node → Nat) {entries : List (Location × Node)}
    (h : find? k entries = none) :
    ((insert k node entries).map f).sum = (entries.map f).sum + f (k, node) := by
  induction entries with
  | nil => simp [insert]
  | cons entry rest ih =>
    obtain ⟨j, old⟩ := entry
    rw [find?_cons] at h
    split at h
    · cases h
    rename_i hjk
    unfold insert
    split
    · simp only [List.map_cons, List.sum_cons]
      omega
    · rw [if_neg fun hkj => hjk hkj.symm]
      simp only [List.map_cons, List.sum_cons, ih h]
      omega

/-- A new entry adds its bytes to what it is at or below. -/
theorem size_put (h : d.get? k = none) (node : Node) (z : Location) :
    (d.put k node).size z = d.size z + if z <+: k then node.size else 0 := by
  have hk : k ≠ [] := by
    rintro rfl
    simp at h
  rw [get?, if_neg hk] at h
  simp only [put, hk, dif_neg, not_false_iff, size]
  exact sum_insert (fun entry => if z <+: entry.1 then entry.2.size else 0) h

theorem size_eq_zero (h : ∀ k content, z <+: k → d.get? k ≠ some (.file content)) : d.size z = 0 := by
  rw [size, List.sum_eq_zero_iff_forall_eq_nat]
  intro n hn
  obtain ⟨⟨k, node⟩, hmem, rfl⟩ := List.mem_map.1 hn
  split
  · rename_i hzk
    cases node with
    | file content => exact absurd (get?_of_mem hmem) (h k content hzk)
    | directory => rfl
    | link target => rfl
  · rfl

theorem size_congr (h : ∀ k, z <+: k → e.get? k = d.get? k) : e.size z = d.size z := by
  have hkeep : ∀ f : Disk, f.size z = (f.keep fun k => decide (z <+: k)).size z := by
    intro f
    show (f.entries.map fun entry => if z <+: entry.1 then entry.2.size else 0).sum =
      ((f.entries.filter fun entry => decide (z <+: entry.1)).map fun entry =>
        if z <+: entry.1 then entry.2.size else 0).sum
    induction f.entries with
    | nil => rfl
    | cons entry rest ih =>
      by_cases hz : z <+: entry.1
      · simp [hz, ih]
      · simp [hz, ih]
  have heq : (e.keep fun k => decide (z <+: k)) = d.keep fun k => decide (z <+: k) := by
    refine ext_get? fun k => ?_
    simp only [get?_keep, decide_eq_true_eq]
    by_cases hz : z <+: k
    · simp [hz, h k hz]
    · by_cases hk : k = []
      · simp [hk]
      · simp [hz, hk]
  rw [hkeep, hkeep d, heq]

theorem size_of_file (hd : d.WellFormed) (h : d.get? l = some (.file content)) :
    d.size l = content.length := by
  have hl : l ≠ [] := by
    rintro rfl
    simp at h
  have hnone : ∀ k, l <+: k → (d.remove l).get? k = none := by
    intro k hk
    rw [get?_remove d hl, if_pos hk]
  have hput : d.size l = ((d.remove l).put l (.file content)).size l := by
    refine size_congr fun k hk => ?_
    rw [get?_put]
    split
    · rename_i heq
      rw [← heq.1, h]
    · rename_i hne
      obtain ⟨r, rfl⟩ := hk
      have hr : r ≠ [] := by
        rintro rfl
        exact hne ⟨by simp, hl⟩
      rw [hnone _ (List.prefix_append ..), hd.get?_append_eq_none hr (by simp [h])]
  rw [hput, size_put (hnone l (List.prefix_refl l)), if_pos (List.prefix_refl l),
    size_eq_zero fun k other hk => by simp [hnone k hk]]
  exact Nat.zero_add _

/-! ### Several files -/

/-- The files of a directory written in turn. -/
def putFiles (d : Disk) (l : Location) (files : List (Text × Text)) : Disk :=
  files.foldl (fun d file => d.put (l ++ [file.1]) (.file (Bytes.ofText file.2))) d

/-- The last text that is written to a file. -/
def last? (x : Text) (files : List (Text × Text)) : Option Text := files.reverse.lookup x

theorem last?_concat (x y text : Text) (files : List (Text × Text)) :
    last? x (files ++ [(y, text)]) = if x = y then some text else last? x files := by
  rw [last?, List.reverse_append, List.reverse_singleton, List.singleton_append, List.lookup_cons]
  by_cases h : x = y
  · simp [h]
  · rw [if_neg h, beq_false_of_ne h, last?]

@[simp] theorem putFiles_nil (d : Disk) (l : Location) : d.putFiles l [] = d := rfl

theorem putFiles_concat (d : Disk) (l : Location) (files : List (Text × Text)) (file : Text × Text) :
    d.putFiles l (files ++ [file]) =
      (d.putFiles l files).put (l ++ [file.1]) (.file (Bytes.ofText file.2)) := by
  simp [putFiles]

theorem get?_putFiles (d : Disk) (l : Location) (files : List (Text × Text)) (x : Text) :
    (d.putFiles l files).get? (l ++ [x]) =
      match last? x files with
      | some text => some (.file (Bytes.ofText text))
      | none => d.get? (l ++ [x]) := by
  induction files using List.reverseRecOn with
  | nil => rfl
  | append_singleton files file ih =>
    obtain ⟨y, text⟩ := file
    rw [putFiles_concat, get?_put, last?_concat, ih]
    by_cases h : x = y
    · simp [h]
    · have hne : y ≠ x := fun heq => h heq.symm
      simp [h, hne]

theorem get?_putFiles_of_ne (h : ∀ file ∈ files, l ++ [file.1] ≠ k) :
    (d.putFiles l files).get? k = d.get? k := by
  induction files using List.reverseRecOn with
  | nil => rfl
  | append_singleton files file ih =>
    rw [putFiles_concat, get?_put, if_neg fun heq => h file (by simp) heq.1]
    exact ih fun other hother => h other (by simp [hother])

theorem last?_eq_some_iff {text : Text} : last? x files = some text ↔
    ∃ before after, files = before ++ (x, text) :: after ∧ x ∉ after.map Prod.fst := by
  rw [last?, List.lookup_eq_some_iff]
  constructor
  · rintro ⟨before, after, heq, hne⟩
    refine ⟨after.reverse, before.reverse, ?_, ?_⟩
    · rw [← List.reverse_reverse files, heq]
      simp
    · rintro hmem
      obtain ⟨file, hfile, rfl⟩ := List.mem_map.1 hmem
      simpa using hne file (by simpa using hfile)
  · rintro ⟨before, after, rfl, hne⟩
    refine ⟨after.reverse, before.reverse, by simp, fun file hfile => ?_⟩
    rw [bne_iff_ne]
    rintro rfl
    exact hne (List.mem_map_of_mem (by simpa using hfile))

theorem last?_eq_none_iff : last? x files = none ↔ x ∉ files.map Prod.fst := by
  rw [last?, List.lookup_eq_none_iff]
  simp only [List.mem_reverse, bne_iff_ne, List.mem_map, not_exists, not_and]
  exact ⟨fun h file hfile heq => h file hfile heq.symm, fun h file hfile heq => h file hfile heq.symm⟩

theorem last?_of_mem (hnodup : (files.map Prod.fst).Nodup) {file : Text × Text}
    (h : file ∈ files) : last? file.1 files = some file.2 := by
  obtain ⟨before, after, rfl⟩ := List.append_of_mem h
  refine last?_eq_some_iff.2 ⟨before, after, rfl, fun hmem => ?_⟩
  rw [List.map_append, List.map_cons] at hnodup
  exact (List.nodup_cons.1 (List.nodup_append.1 hnodup).2.1).1 hmem

section Empty

/-! In a directory that has been empty: -/

variable (hempty : d.NothingBelow l)
include hempty

theorem adds_putFiles (hd : d.WellFormed) (hdir : d.get? l = some .directory)
    (hfiles : ∀ file ∈ files, IsFileName file.1) :
    Adds (fun k node => ∃ x ∈ files.map Prod.fst, k = l ++ [x] ∧ ∃ content, node = .file content)
      d (d.putFiles l files) := by
  induction files using List.reverseRecOn with
  | nil => exact .refl hd
  | append_singleton files file ih =>
    have hadds := ih fun other hother => hfiles other (by simp [hother])
    have hold : (d.putFiles l files).get? (l ++ [file.1]) ≠ some .directory := by
      rw [get?_putFiles, hempty _ (by simp)]
      split <;> simp
    rw [putFiles_concat]
    refine (hadds.mono fun k node hnew => ?_).put_new (hadds.le _ _ hdir)
      (hfiles file (by simp)) (hempty _ (by simp)) hold ⟨file.1, by simp, rfl, _, rfl⟩
    obtain ⟨x, hx, h⟩ := hnew
    exact ⟨x, by simp [List.mem_map.1 hx], h⟩

theorem mem_names_putFiles : x ∈ (d.putFiles l files).names l ↔ x ∈ files.map Prod.fst := by
  rw [mem_names, get?_putFiles, hempty _ (by simp)]
  cases h : last? x files with
  | none => simpa using last?_eq_none_iff.1 h
  | some text =>
    obtain ⟨before, after, rfl, -⟩ := last?_eq_some_iff.1 h
    simp

end Empty

/-- Files with different names take the bytes of all their texts. -/
theorem size_putFiles (hempty : d.NothingBelow l) (hnodup : (files.map Prod.fst).Nodup) :
    (d.putFiles l files).size l = d.size l + (files.map fun file => file.2.byteCount).sum := by
  induction files using List.reverseRecOn with
  | nil => rfl
  | append_singleton files file ih =>
    rw [List.map_append, List.nodup_append] at hnodup
    have hfresh : (d.putFiles l files).get? (l ++ [file.1]) = none := by
      have hnot : file.1 ∉ files.map Prod.fst := fun hmem => hnodup.2.2 _ hmem _ (by simp) rfl
      rw [get?_putFiles, last?_eq_none_iff.2 hnot, hempty _ (by simp)]
    rw [putFiles_concat, size_put hfresh, ih hnodup.1, if_pos (List.prefix_append ..)]
    simp [Node.size, Bytes.length_ofText, Nat.add_assoc]

end Disk

end ModulePack
