import ModulePack.Proofs.Disk.Medium

/-!
# Copies that break off

A copy that is refused half way, or whose medium gives out, leaves behind what it has made by then.
`PartMade w d l e t` says that nothing else has changed and that all of it is copied: each entry that
has come to be at or below `t` is what its original was at some time in between, or the first bytes
of it where the medium has cut it off. `copy_partMade` says so of every copy, however it ends.
-/

namespace ModulePack

/-- All of a node, or the first bytes of a file that the medium cuts off. -/
inductive Medium.Keeps (w : Medium) : Node → Node → Prop
  | whole (node : Node) : Keeps w node node
  | cut (content : Bytes) {n : Nat} {fault : Fault} {p : Path} {d : Disk}
      (h : w.cuts p d = some (n, fault)) : Keeps w (.file content) (.file (content.take n))

open Disk

variable {d e f : Disk} {l k t there : Location} {x : Text} {m n : Nat} {node original : Node}
  {q source target : Path} {w : Medium} {names : List Text} {content : Bytes}

namespace Disk

/-- Each entry at or below `t` that `e` has and `d` has not is all or a part of what stood at its
place at or below `l` at some time from `d` to `e`, with the content of what links lead to. -/
def Mirrors (w : Medium) (d : Disk) (l : Location) (e : Disk) (t : Location) : Prop :=
  ∀ r node, e.get? (t ++ r) = some node → d.get? (t ++ r) = none →
    ∃ f original, d ≤ f ∧ f ≤ e ∧ f.followed (l ++ r) = some original ∧ w.Keeps original node

/-- What a copy of `l` to `t` has made by the time it ends, which nothing else has been changed for. -/
structure PartMade (w : Medium) (d : Disk) (l : Location) (e : Disk) (t : Location) : Prop where
  adds : Adds (Under t) d e
  mirrors : Mirrors w d l e t

namespace PartMade

theorem refl (hd : d.WellFormed) (l t : Location) : PartMade w d l d t :=
  ⟨.refl hd, fun r node hsome hnone => by
    rw [hnone] at hsome
    cases hsome⟩

theorem trans (h : PartMade w d l e t) (h' : PartMade w e l f t) : PartMade w d l f t := by
  refine ⟨h.adds.trans h'.adds, fun r node hsome hnone => ?_⟩
  cases he : e.get? (t ++ r) with
  | none =>
    obtain ⟨g, original, heg, hgf, hg⟩ := h'.mirrors r node hsome he
    exact ⟨g, original, le_trans h.adds.le heg, hgf, hg⟩
  | some old =>
    obtain rfl : old = node := Option.some.inj ((h'.adds.le _ _ he).symm.trans hsome)
    obtain ⟨g, original, hdg, hge, hg⟩ := h.mirrors r old he hnone
    exact ⟨g, original, hdg, le_trans hge h'.adds.le, hg⟩

theorem of_entry (h : PartMade w d (l ++ [x]) e (t ++ [x])) : PartMade w d l e t := by
  refine ⟨h.adds.mono fun k node hunder => ⟨(List.prefix_append ..).trans hunder.1, hunder.2⟩,
    fun r node hsome hnone => ?_⟩
  obtain ⟨s, hs⟩ := (h.adds.new _ _ hsome hnone).1
  obtain rfl : x :: s = r := by simpa using hs
  simpa using h.mirrors s node (by simpa using hsome) (by simpa using hnone)

/-- An entry has been made that is all or a part of its original. -/
theorem put (hd : d.WellFormed) (hdir : d.get? there = some .directory) (hx : IsFileName x)
    (hfresh : d.get? (there ++ [x]) = none) (hl : d.followed l = some original)
    (hpart : w.Keeps original node) (hlink : ∀ target, node ≠ .link target) :
    PartMade w d l (d.put (there ++ [x]) node) (there ++ [x]) := by
  have hadds : Adds (Under (there ++ [x])) d (d.put (there ++ [x]) node) :=
    .put hd hdir hx hfresh ⟨List.prefix_refl _, hlink⟩
  refine ⟨hadds, fun r other hsome hnone => ?_⟩
  rw [get?_put] at hsome
  split at hsome
  · rename_i heq
    obtain rfl : r = [] := by simpa using heq.1
    obtain rfl := Option.some.inj hsome
    exact ⟨d, original, le_refl d, hadds.le, by rwa [List.append_nil], hpart⟩
  · rw [hnone] at hsome
    cases hsome

end PartMade

/-! ### Files -/

theorem cutOff_put (hreach : d.Reaches q m there) (hx : IsFileName x)
    (ha : Allowed (Path.append q x)) (hfresh : d.get? (there ++ [x]) = none) (content : Bytes)
    (n : Nat) : (d.put (there ++ [x]) (.file content)).cutOff (Path.append q x) n =
      d.put (there ++ [x]) (.file (content.take n)) := by
  have hreach' := hreach.mono (.of_le (le_put hfresh (.file content)))
  have hfile : (d.put (there ++ [x]) (.file content)).get? (there ++ [x]) = some (.file content) := by
    simp [get?_put]
  have hfind : (d.put (there ++ [x]) (.file content)).find (Path.append q x) =
      .ok (there ++ [x], .file content) := by
    refine find_eq_ok_iff.2 ⟨?_, hfile⟩
    rw [hreach'.locate_append hx ha, walk_singleton hx (by simp [hfile])]
  rw [cutOff, hfind]
  dsimp only
  rw [put_put]

theorem copyContent_partMade (w : Medium) (hd : d.WellFormed) (hreach : d.Reaches q m there)
    (hx : IsFileName x) (hfresh : d.get? (there ++ [x]) = none)
    (hl : ∀ k content, d.find source = .ok (k, .file content) →
      d.followed l = some (.file content)) :
    PartMade w d l (w.copyContent d source (Path.append q x)).2 (there ++ [x]) := by
  have hdir := hreach.directory hd
  unfold Medium.copyContent
  split
  · exact .refl hd _ _
  rename_i count e hanswer
  have hcopy : d.copyContent source (Path.append q x) = (.ok count, e) := by
    rw [copyContent, Medium.eq_ok_of_answer hanswer]
  rcases copyContent_cases source hreach hx hfresh with
    ⟨failure, h⟩ | ⟨k, content, hfind, ha, h⟩
  · rw [hcopy] at h
    cases h
  rw [hcopy] at h
  obtain ⟨-, rfl⟩ := Prod.mk.inj h
  have hfollowed := hl k content hfind
  rcases w.fill_cases (Path.append q x) d (d.put (there ++ [x]) (.file content)) with
    hfill | ⟨fault, hfill⟩ | ⟨n, fault, hcut, hfill⟩
  · rw [hfill]
    exact .put hd hdir hx hfresh hfollowed (.whole _) (by simp)
  · rw [hfill]
    exact .refl hd _ _
  · rw [hfill]
    dsimp only
    rw [cutOff_put hreach hx ha hfresh]
    exact .put hd hdir hx hfresh hfollowed (.cut content hcut) (by simp)

/-! ### Trees -/

theorem copyEach_partMade {copyEntry : Text → Disk → Except Failure Nat × Disk}
    (hd : d.WellFormed) (hnodup : names.Nodup) (hfresh : ∀ x ∈ names, d.get? (t ++ [x]) = none)
    (hentry : ∀ x ∈ names, ∀ f : Disk, f.WellFormed → d ≤ f → f.get? (t ++ [x]) = none →
      PartMade w f (l ++ [x]) (copyEntry x f).2 (t ++ [x])) :
    PartMade w d l (copyEach copyEntry names d).2 t := by
  induction names generalizing d with
  | nil => exact .refl hd _ _
  | cons x names ih =>
    obtain ⟨hnot, hnodup⟩ := List.nodup_cons.1 hnodup
    have hfirst := hentry x (by simp) d hd (le_refl d) (hfresh x (by simp))
    unfold copyEach
    cases hcopy : copyEntry x d with
    | mk answer e =>
      rw [hcopy] at hfirst
      cases answer with
      | error failure => exact hfirst.of_entry
      | ok count =>
        have hfresh' : ∀ y ∈ names, e.get? (t ++ [y]) = none := by
          intro y hy
          have hother : ∀ node, ¬Under (t ++ [x]) (t ++ [y]) node := by
            intro node hunder
            obtain rfl := hunder.name_eq
            exact hnot hy
          rw [hfirst.adds.get?_eq hother]
          exact hfresh y (by simp [hy])
        exact hfirst.of_entry.trans <| ih hfirst.adds.wf hnodup hfresh' fun y hy f hf hef =>
          hentry y (by simp [hy]) f hf (le_trans hfirst.adds.le hef)

end Disk

namespace Medium

/-- How an entry of a directory is copied. -/
def copyEntry (w : Medium) (depth : Nat) (l : Location) (source target : Path) (x : Text)
    (d : Disk) : Except Failure Nat × Disk :=
  if d.get? (l ++ [x]) = some .directory then
    w.copyDirectory depth (l ++ [x]) (Path.append source x) (Path.append target x) d
  else w.copyContent d (Path.append source x) (Path.append target x)

/-- To where nothing stands, the copy of a directory is refused, or begins with an empty one. Then it
may be refused, too, before any entry is copied. -/
theorem copyDirectory_cases (w : Medium) (depth : Nat) (l : Location) (source : Path)
    (hd : d.WellFormed) (hreach : d.Reaches q m there) (hx : IsFileName x)
    (hp : trimSlashes target = Path.append q x) (hfresh : d.get? (there ++ [x]) = none) :
    (∃ failure, w.copyDirectory (depth + 1) l source target d = (.error failure, d)) ∨
    ∃ e, Opened d e target m (there ++ [x]) ∧
      ((∃ failure, w.copyDirectory (depth + 1) l source target d = (.error failure, e)) ∨
        w.copyDirectory (depth + 1) l source target d =
          copyEach (w.copyEntry depth l source target) (e.names l) e) := by
  unfold copyDirectory
  split
  · exact .inl ⟨_, rfl⟩
  rcases Disk.makeDirectories_cases hd hreach hx hp hfresh with ⟨fault, hmake⟩ | ⟨e, hopened, hmake⟩
  · exact .inl ⟨.io target fault, by rw [hmake]⟩
  · rw [hmake]
    refine .inr ⟨e, hopened, ?_⟩
    dsimp only
    split
    · exact .inl ⟨_, rfl⟩
    · exact .inr rfl

theorem copyDirectory_partMade (w : Medium) (depth : Nat) (hd : d.WellFormed)
    (hsource : d.Reaches source n l) (hreach : d.Reaches q m there) (hx : IsFileName x)
    (hp : trimSlashes target = Path.append q x) (hfresh : d.get? (there ++ [x]) = none) :
    PartMade w d l (w.copyDirectory depth l source target d).2 (there ++ [x]) := by
  induction depth generalizing d l source target q there x with
  | zero => exact .refl hd _ _
  | succ depth ih =>
    rcases w.copyDirectory_cases depth l source hd hreach hx hp hfresh with
      ⟨failure, hcopy⟩ | ⟨e, hopened, hcopy⟩
    · rw [hcopy]
      exact .refl hd _ _
    have hl := hsource.directory hd
    have hmade : PartMade w d l e (there ++ [x]) :=
      hopened.eq ▸ .put hd (hreach.directory hd) hx hfresh
        (by rw [followed_of_ne (by simp [hl]), hl]) (.whole _) (by simp)
    obtain ⟨-, -, hadds, htarget, hempty⟩ := hopened
    rcases hcopy with ⟨failure, hcopy⟩ | hcopy
    · rw [hcopy]
      exact hmade
    rw [hcopy]
    generalize there ++ [x] = t at *
    -- entries are copied to a disk that has grown since the directory was listed
    refine hmade.trans <| copyEach_partMade hadds.wf (names_nodup e l)
      (fun y _ => hempty (t ++ [y]) (by simp)) fun y hy f hf hef hnone => ?_
    have hname := isFileName_of_mem_names hadds.wf hy
    have htarget' := htarget.mono (.of_le hef)
    have hsource' := hsource.mono (.of_le (le_trans hadds.le hef))
    unfold copyEntry
    split
    · rename_i hsub
      exact ih hf (hsource'.append hname hsub) htarget' hname
        (trimSlashes_append target hname.ne_nil hname.no_slash) hnone
    · exact copyContent_partMade w hf htarget' hname hnone fun k content hfind =>
        followed_of_find hf hsource' hname hfind

/-- However a copy ends, what it has made is copied from where its source leads to. -/
theorem copy_partMade (w : Medium) (hd : d.WellFormed) (hreach : d.Reaches q m there)
    (hx : IsFileName x) (hfresh : d.get? (there ++ [x]) = none)
    (hfind : d.find source = .ok (l, node)) :
    PartMade w d l (w.copy d source (Path.append q x)).2 (there ++ [x]) := by
  have hcontent : PartMade w d l (w.copyContent d source (Path.append q x)).2 (there ++ [x]) := by
    refine copyContent_partMade w hd hreach hx hfresh fun k content hk => ?_
    obtain rfl := find_unique hfind hk
    have hl := (find_eq_ok_iff.1 hk).2
    rw [followed_of_ne (by simp [hl]), hl]
  unfold copy answer
  split
  · exact .refl hd _ _
  · rename_i k hanswer
    split at hanswer
    · cases hanswer
    obtain rfl := find_unique hfind hanswer
    split
    · exact .refl hd _ _
    · obtain ⟨n, hsource⟩ := reaches_of_find hanswer
      have hslash : trimSlashes (Path.append (Path.append q x) []) = Path.append q x := by
        rw [trimSlashes_append_nil, trimSlashes_append q hx.ne_nil hx.no_slash]
      exact w.copyDirectory_partMade maxPath hd hsource hreach hx hslash hfresh
  · exact hcontent

end Medium

end ModulePack
