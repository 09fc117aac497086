import ModulePack.Proofs.Disk.Locate

/-!
# Emptying a directory

`clear` removes nothing but what is below the directory that its path leads to (`clear_frame`). If
it succeeds and the path still leads to the directory, all of that is gone (`clear_eq_removeBelow`).
It does succeed where the path does not lead through what it removes (`clear_of_reaches`).
-/

namespace ModulePack.Disk

variable {d e : Disk} {l k : Location} {x : Text} {names : List Text} {m : Nat} {p : Path}

/-! ### One entry -/

/-- What removing an entry of a directory does: it is refused, the entry goes with all below it, or
only what is below it goes, since the path leads nowhere any more. -/
theorem removeEntry_cases (hreach : d.Reaches p m l) (hx : IsFileName x) (hed : e ≤ d) :
    (∃ fault, e.removeEntry (Path.append p x) = (.error fault, e)) ∨
    e.removeEntry (Path.append p x) = (.ok (), e.remove (l ++ [x])) ∨
    (e.removeEntry (Path.append p x) = (.ok (), e.removeBelow (l ++ [x])) ∧
      Allowed (Path.append p x) ∧ ¬∃ m', (e.removeBelow (l ++ [x])).Reaches p m' l) := by
  unfold removeEntry
  cases hloc : e.locate .keep (Path.append p x) with
  | error fault => exact .inl ⟨fault, rfl⟩
  | ok j =>
    by_cases hnone : e.get? j = none
    · exact .inl ⟨.noSuchFile, by simp [hnone]⟩
    obtain ⟨node, hnode⟩ := Option.ne_none_iff_exists'.1 hnone
    have ha := allowed_of_locate hloc
    -- on the larger disk the same path leads to the entry `x` of `l`
    obtain rfl : l ++ [x] = j := by
      have h := locate_of_le hed hloc hnode
      rw [hreach.locate_append hx ha, walk_keep_singleton hx] at h
      exact Except.ok.inj h
    by_cases hok : ((e.removeBelow (l ++ [x])).locate .keep (Path.append p x)).isOk = true
    · refine .inr (.inl ?_)
      simp [hnone, hok, remove_removeBelow]
    · refine .inr (.inr ⟨by simp [hnone, hok], ha, ?_⟩)
      rintro ⟨m', hreach'⟩
      rw [hreach'.locate_append hx ha, walk_keep_singleton hx] at hok
      exact hok rfl

theorem removeEntry_of_reaches (hreach : (e.removeBelow (l ++ [x])).Reaches p m l)
    (hx : IsFileName x) (ha : Allowed (Path.append p x)) (hsome : e.get? (l ++ [x]) ≠ none) :
    e.removeEntry (Path.append p x) = (.ok (), e.remove (l ++ [x])) := by
  have hbefore : e.Reaches p m l := hreach.mono (.of_le (removeBelow_le e _))
  rw [removeEntry, hbefore.locate_append hx ha, walk_keep_singleton hx]
  simp only [hsome, if_false]
  rw [hreach.locate_append hx ha, walk_keep_singleton hx, remove_removeBelow]
  rfl

theorem removeEntry_frame (hreach : d.Reaches p m l) (hx : IsFileName x) (hed : e ≤ d)
    (he : e.WellFormed) :
    (e.removeEntry (Path.append p x)).2 ≤ e ∧ (e.removeEntry (Path.append p x)).2.WellFormed ∧
      ∀ k, isBelow l k = false → (e.removeEntry (Path.append p x)).2.get? k = e.get? k := by
  have hne : l ++ [x] ≠ [] := by simp
  rcases removeEntry_cases hreach hx hed with ⟨fault, h⟩ | h | ⟨h, -⟩
  · rw [h]
    exact ⟨le_refl e, he, fun _ _ => rfl⟩
  · rw [h]
    refine ⟨remove_le e hne, he.remove hne, fun k hk => ?_⟩
    rw [get?_remove e hne, if_neg]
    rintro ⟨r, rfl⟩
    simp at hk
  · rw [h]
    refine ⟨removeBelow_le e _, he.removeBelow _, fun k hk => ?_⟩
    rw [get?_removeBelow, if_neg]
    intro hb
    obtain ⟨y, r, rfl⟩ := isBelow_iff.1 hb
    simp at hk

/-! ### All entries -/

theorem removeEntries_cons (e : Disk) :
    removeEntries p (x :: names) e =
      match e.removeEntry (Path.append p x) with
      | (.ok (), e') => removeEntries p names e'
      | (.error fault, e') => (.error (.io (Path.append p x) fault), e') := rfl

theorem removeEntries_frame (hreach : d.Reaches p m l) (hx : ∀ x ∈ names, IsFileName x)
    (hed : e ≤ d) (he : e.WellFormed) :
    (removeEntries p names e).2 ≤ e ∧ (removeEntries p names e).2.WellFormed ∧
      ∀ k, isBelow l k = false → (removeEntries p names e).2.get? k = e.get? k := by
  induction names generalizing e with
  | nil => exact ⟨le_refl e, he, fun _ _ => rfl⟩
  | cons x names ih =>
    obtain ⟨hle, hwf, hframe⟩ := removeEntry_frame hreach (hx x (by simp)) hed he
    rw [removeEntries_cons]
    split
    · rename_i e' heq
      rw [heq] at hle hwf hframe
      obtain ⟨hle', hwf', hframe'⟩ :=
        ih (fun y hy => hx y (by simp [hy])) (le_trans hle hed) hwf
      exact ⟨le_trans hle' hle, hwf', fun k hk => (hframe' k hk).trans (hframe k hk)⟩
    · rename_i fault e' heq
      rw [heq] at hle hwf hframe
      exact ⟨hle, hwf, hframe⟩

/-- Entries that are removed are gone, with all below them, if the path to their directory still
leads there in the end. -/
theorem removeEntries_ok (hreach : d.Reaches p m l) (hx : ∀ x ∈ names, IsFileName x)
    (hed : e ≤ d) (he : e.WellFormed) (hok : (removeEntries p names e).1 = .ok ())
    (hlast : (removeEntries p names e).2.Reaches p m l) (k : Location) :
    (removeEntries p names e).2.get? k =
      if ∃ x ∈ names, l ++ [x] <+: k then none else e.get? k := by
  induction names generalizing e with
  | nil => simp [removeEntries]
  | cons x names ih =>
    have hxs : ∀ y ∈ names, IsFileName y := fun y hy => hx y (by simp [hy])
    obtain ⟨hle, hwf, -⟩ := removeEntry_frame hreach (hx x (by simp)) hed he
    have hstep : ∀ e', e.removeEntry (Path.append p x) = (.ok (), e') →
        removeEntries p (x :: names) e = removeEntries p names e' := by
      intro e' h
      rw [removeEntries_cons, h]
    rcases removeEntry_cases hreach (hx x (by simp)) hed with ⟨fault, h⟩ | h | ⟨h, -, hnot⟩
    · rw [removeEntries_cons, h] at hok
      cases hok
    · rw [h] at hle hwf
      rw [hstep _ h] at hok hlast ⊢
      rw [ih hxs (le_trans hle hed) hwf hok hlast, get?_remove e (by simp)]
      by_cases hpre : l ++ [x] <+: k <;> simp [hpre]
    · rw [h] at hle hwf
      rw [hstep _ h] at hlast
      have hle' := (removeEntries_frame hreach hxs (le_trans hle hed) hwf).1
      exact absurd ⟨m, hlast.mono (.of_le hle')⟩ hnot

theorem removeEntries_of_reaches (hreach : (d.removeBelow l).Reaches p m l) (hnames : names.Nodup)
    (hx : ∀ x ∈ names, IsFileName x ∧ Allowed (Path.append p x) ∧ e.get? (l ++ [x]) ≠ none)
    (hde : d.removeBelow l ≤ e) : (removeEntries p names e).1 = .ok () := by
  induction names generalizing e with
  | nil => rfl
  | cons x names ih =>
    obtain ⟨hname, ha, hsome⟩ := hx x (by simp)
    obtain ⟨hnot, hnodup⟩ := List.nodup_cons.1 hnames
    have hle : ∀ k node, isBelow (l ++ [x]) k = true ∨ l ++ [x] <+: k →
        (d.removeBelow l).get? k ≠ some node := by
      intro k node hk
      have hb : isBelow l k = true := by
        rcases hk with hk | ⟨r, rfl⟩
        · obtain ⟨y, r, rfl⟩ := isBelow_iff.1 hk
          simp
        · simp
      simp [get?_removeBelow, hb]
    have hbelow : d.removeBelow l ≤ e.removeBelow (l ++ [x]) := by
      intro k node hk
      rw [get?_removeBelow, if_neg fun hb => hle k node (.inl hb) hk]
      exact hde k node hk
    have hremove : d.removeBelow l ≤ e.remove (l ++ [x]) := by
      intro k node hk
      rw [get?_remove e (by simp), if_neg fun hpre => hle k node (.inr hpre) hk]
      exact hde k node hk
    rw [removeEntries_cons, removeEntry_of_reaches (hreach.mono (.of_le hbelow)) hname ha hsome]
    refine ih hnodup (fun y hy => ?_) hremove
    obtain ⟨hname', ha', hsome'⟩ := hx y (by simp [hy])
    refine ⟨hname', ha', ?_⟩
    rw [get?_remove e (by simp), if_neg]
    · exact hsome'
    · intro hpre
      obtain rfl : x = y := by simpa using hpre
      exact hnot hy

/-! ### A whole directory -/

theorem clear_of_find (h : d.find p = .ok (l, .directory)) :
    d.clear p = removeEntries p (d.names l) d := by
  rw [clear, h]

theorem clear_of_not_find (h : ∀ l, d.find p ≠ .ok (l, .directory)) : (d.clear p).2 = d := by
  unfold clear
  split
  · rename_i l heq
    exact absurd heq (h l)
  · rfl
  · rfl
  · rfl

theorem clear_frame (hd : d.WellFormed) (p : Path) :
    (d.clear p).2 ≤ d ∧ (d.clear p).2.WellFormed ∧
      ∀ k, (∀ l, d.find p = .ok (l, .directory) → isBelow l k = false) →
        (d.clear p).2.get? k = d.get? k := by
  by_cases h : ∃ l, d.find p = .ok (l, .directory)
  · obtain ⟨l, hl⟩ := h
    obtain ⟨m, hreach⟩ := reaches_of_find hl
    obtain ⟨hle, hwf, hframe⟩ := removeEntries_frame hreach
      (fun x => isFileName_of_mem_names hd) (le_refl d) hd
    rw [clear_of_find hl]
    exact ⟨hle, hwf, fun k hk => hframe k (hk l hl)⟩
  · rw [clear_of_not_find fun l hl => h ⟨l, hl⟩]
    exact ⟨le_refl d, hd, fun _ _ => rfl⟩

/-- Once it has been cleared, a directory to which the path still leads is empty, and nothing else
has changed. -/
theorem clear_eq_removeBelow (hd : d.WellFormed) (hok : (d.clear p).1 = .ok ())
    (hfind : (d.clear p).2.find p = .ok (l, .directory)) : (d.clear p).2 = d.removeBelow l := by
  have hold := find_of_le (clear_frame hd p).1 hfind
  obtain ⟨m, hreach⟩ := reaches_of_find hfind
  rw [clear_of_find hold] at hok hreach ⊢
  have hreach' : d.Reaches p m l := by
    have hle := (clear_frame hd p).1
    rw [clear_of_find hold] at hle
    exact hreach.mono (.of_le hle)
  refine ext_get? fun k => ?_
  rw [removeEntries_ok hreach' (fun x => isFileName_of_mem_names hd) (le_refl d) hd hok hreach,
    get?_removeBelow]
  by_cases hb : isBelow l k = true
  · obtain ⟨x, r, rfl⟩ := isBelow_iff.1 hb
    rw [if_pos hb]
    split
    · rfl
    · rename_i hnot
      refine Option.eq_none_iff_forall_ne_some.2 fun node hnode => hnot ⟨x, ?_, ?_⟩
      · have hsome : ∃ other, d.get? (l ++ [x]) = some other := by
          by_cases hr : r = []
          · exact ⟨node, by rwa [hr] at hnode⟩
          · exact ⟨_, hd.directory_of_append hr (by simpa using hnode)⟩
        exact mem_names.2 hsome
      · exact ⟨r, by simp⟩
  · rw [if_neg hb, if_neg]
    rintro ⟨x, -, r, rfl⟩
    simp at hb

/-- A directory whose entries can be named is cleared if the path does not lead through them. -/
theorem clear_of_reaches (hd : d.WellFormed)
    (hfind : (d.removeBelow l).find p = .ok (l, .directory))
    (ha : ∀ x ∈ d.names l, Allowed (Path.append p x)) :
    d.clear p = (.ok (), d.removeBelow l) := by
  obtain ⟨m, hreach⟩ := reaches_of_find hfind
  have hold := find_of_le (removeBelow_le d l) hfind
  have hok : (d.clear p).1 = .ok () := by
    rw [clear_of_find hold]
    refine removeEntries_of_reaches hreach (names_nodup d l) (fun x hx => ?_) (removeBelow_le d l)
    obtain ⟨node, hnode⟩ := mem_names.1 hx
    exact ⟨isFileName_of_mem_names hd hx, ha x hx, by simp [hnode]⟩
  refine Prod.ext hok (clear_eq_removeBelow hd hok (find_of_le (fun k node hk => ?_) hfind))
  obtain ⟨-, -, hframe⟩ := clear_frame hd p
  rw [get?_removeBelow] at hk
  split at hk
  · cases hk
  · rename_i hb
    rw [hframe k fun l' hl' => ?_]
    · exact hk
    · rw [hold] at hl'
      cases hl'
      simpa using hb

end ModulePack.Disk
