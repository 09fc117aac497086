import ModulePack.Proofs.Disk.Copying

/-!
# What no request takes away

A request to write, to make directories or to copy takes no directory and no link away, wherever it
goes (`ways_writeBytes`, `ways_copyListed`): it may only change the content of files. So paths lead
on to the directories that they led to (`find_of_ways`), and what has been written under a path is
read back under it, be it through links (`readText_of_writeText`).
-/

namespace ModulePack.Disk

variable {d e f : Disk} {l here there : Location} {x : Text} {xs : List Text} {n m : Nat}
  {ending : Ending} {p q source target : Path} {content : Bytes} {listing : Listing}

theorem Ways.refl (d : Disk) : Ways d d := ⟨fun _ h => h, fun _ _ h => h⟩

theorem Ways.trans (h : Ways d e) (h' : Ways e f) : Ways d f :=
  ⟨fun l hl => h'.directory l (h.directory l hl), fun l _ hl => h'.link l _ (h.link l _ hl)⟩

/-! ### Paths -/

theorem find_of_ways (h : Ways d e) (hfind : d.find p = .ok (l, .directory)) :
    e.find p = .ok (l, .directory) := by
  obtain ⟨m, hreach⟩ := reaches_of_find hfind
  refine find_eq_ok_iff.2 ⟨?_, h.directory l (find_eq_ok_iff.1 hfind).2⟩
  rw [locate_of_allowed (allowed_of_find hfind)]
  exact (passes_steps_iff.2 (hreach.mono h)).walk_follow

/-- Whether a name behind a path is a link is seen in the directory that the path leads to. -/
theorem isLink_append_iff (hreach : d.Reaches p m there) (hx : IsFileName x)
    (ha : Allowed (Path.append p x)) :
    d.isLink (Path.append p x) = true ↔ ∃ target, d.get? (there ++ [x]) = some (.link target) := by
  rw [isLink, hreach.locate_append hx ha, walk_keep_singleton hx]
  dsimp only
  split
  · rename_i target hlink
    exact iff_of_true rfl ⟨target, hlink⟩
  · rename_i hnot
    exact iff_of_false (by simp) (not_exists.2 hnot)

theorem isLink_of_ways (h : Ways d e) (hx : IsFileName x)
    (hfind : d.find (Path.append p x) = .ok (l, .directory))
    (hlink : d.isLink (Path.append p x) = true) : e.isLink (Path.append p x) = true := by
  have ha := allowed_of_find hfind
  obtain ⟨m, there, hreach, -⟩ := reaches_of_locate_append hx (find_eq_ok_iff.1 hfind).1
  obtain ⟨target, htarget⟩ := (isLink_append_iff hreach hx ha).1 hlink
  exact (isLink_append_iff (hreach.mono h) hx ha).2 ⟨target, h.link _ _ htarget⟩

/-! ### Writing a file -/

/-- No link stands where a walk ends that follows links. -/
theorem get?_ne_link_of_walk (hending : ending ≠ .keep)
    (hhere : ∀ k, k <+: here → d.get? k = some .directory)
    (hw : d.walk ending n here xs = .ok l) (target : Path) : d.get? l ≠ some (.link target) := by
  have hbase (here : Location) (target : Path) (h : ∀ k, k <+: here → d.get? k = some .directory) :
      ∀ k, k <+: linkBase here target → d.get? k = some .directory := by
    unfold linkBase
    split
    · exact fun k hk => h k (by rw [List.prefix_nil.1 hk]; exact List.nil_prefix)
    · exact h
  induction n, here, xs using walk_induct with
  | nil n here =>
    obtain rfl : here = l := by simpa using hw
    simp [hhere here (List.prefix_refl _)]
  | stay n here step rest hstep ih =>
    rw [walk_stay hstep] at hw
    exact ih hhere hw
  | up n here rest ih =>
    rw [walk_up] at hw
    exact ih (fun k hk => hhere k (hk.trans (List.dropLast_prefix here))) hw
  | entry n here step rest hstep ih ihlink =>
    obtain ⟨hshort, hend⟩ := short_of_walk hstep hw
    rw [walk_entry hstep hshort hend, walkEntry] at hw
    split at hw
    · rename_i hnone
      split at hw
      · cases hw
        simp [hnone]
      · cases hw
    · simp only [hending, and_false, if_false] at hw
      cases n with
      | zero => cases hw
      | succ n => exact ihlink n rfl _ _ (hbase here _ hhere) hw
    · rename_i hdir
      refine ih (fun k hk => ?_) hw
      rcases List.prefix_concat_iff.1 hk with rfl | hk
      · exact hdir
      · exact hhere k hk
    · rename_i hfile
      split at hw
      · cases hw
        simp [hfile]
      · cases hw

/-- Where a walk ends that is to write a file, one that is to read it ends once the file is there. -/
theorem walk_follow_of_create (h : Ways d e) (hl : e.get? l = some (.file content))
    (hw : d.walk .create n here xs = .ok l) : e.walk .follow n here xs = .ok l := by
  induction n, here, xs using walk_induct with
  | nil n here =>
    obtain rfl : here = l := by simpa using hw
    exact walk_nil
  | stay n here step rest hstep ih =>
    rw [walk_stay hstep] at hw ⊢
    exact ih hw
  | up n here rest ih =>
    rw [walk_up] at hw ⊢
    exact ih hw
  | entry n here step rest hstep ih ihlink =>
    obtain ⟨hshort, hend⟩ := short_of_walk hstep hw
    rw [walk_entry hstep hshort hend, walkEntry] at hw
    rw [walk_entry hstep hshort (by simp), walkEntry]
    split at hw
    · split at hw
      · rename_i hrest
        cases hw
        rw [hl]
        exact if_pos hrest
      · cases hw
    · rename_i target hlink
      rw [h.link _ _ hlink]
      simp only [reduceCtorEq, and_false, if_false] at hw ⊢
      cases n with
      | zero => cases hw
      | succ n => exact ihlink n rfl _ _ hw
    · rename_i hdir
      rw [h.directory _ hdir]
      exact ih hw
    · split at hw
      · rename_i hrest
        cases hw
        rw [hl]
        exact if_pos hrest
      · cases hw

/-- A file is written where a file or nothing stood. -/
theorem writeBytes_eq_ok (h : d.writeBytes p content = .ok e) : ∃ l,
    d.locate .create p = .ok l ∧ l ≠ [] ∧ e = d.put l (.file content) ∧
      d.get? l ≠ some .directory ∧ ∀ target, d.get? l ≠ some (.link target) := by
  unfold writeBytes at h
  cases hloc : d.locate .create p with
  | error fault => simp [hloc, bind, Except.bind] at h
  | ok l =>
    have hlink := get?_ne_link_of_walk (by simp) (fun k hk => by simp [List.prefix_nil.1 hk])
      (locate_of_allowed (allowed_of_locate hloc) ▸ hloc)
    simp only [hloc, bind, Except.bind] at h
    split at h
    · cases h
    · rename_i hdir
      refine ⟨l, rfl, ?_, (Except.ok.inj h).symm, hdir, hlink⟩
      rintro rfl
      exact hdir (by simp)

theorem ways_put {node : Node} (hdir : d.get? l ≠ some .directory)
    (hlink : ∀ target, d.get? l ≠ some (.link target)) : Ways d (d.put l node) := by
  refine ⟨fun k hk => ?_, fun k target hk => ?_⟩
  · rw [get?_put, if_neg, hk]
    rintro ⟨rfl, -⟩
    exact hdir hk
  · rw [get?_put, if_neg, hk]
    rintro ⟨rfl, -⟩
    exact hlink target hk

theorem ways_writeBytes (h : d.writeBytes p content = .ok e) : Ways d e := by
  obtain ⟨l, -, -, rfl, hdir, hlink⟩ := writeBytes_eq_ok h
  exact ways_put hdir hlink

theorem writeBytes_of_create (hloc : d.locate .create p = .ok l)
    (hdir : d.get? l ≠ some .directory) (content : Bytes) :
    d.writeBytes p content = .ok (d.put l (.file content)) := by
  simp [writeBytes, hloc, bind, Except.bind]

theorem find_of_create (hloc : d.locate .create p = .ok l) (hl : l ≠ [])
    (hdir : d.get? l ≠ some .directory) (hlink : ∀ target, d.get? l ≠ some (.link target))
    (content : Bytes) : (d.put l (.file content)).find p = .ok (l, .file content) := by
  have hfile : (d.put l (.file content)).get? l = some (.file content) := by simp [get?_put, hl]
  have ha := allowed_of_locate hloc
  rw [locate_of_allowed ha] at hloc
  refine find_eq_ok_iff.2 ⟨?_, hfile⟩
  rw [locate_of_allowed ha]
  exact walk_follow_of_create (ways_put hdir hlink) hfile hloc

theorem find_of_writeBytes (h : d.writeBytes p content = .ok e) :
    ∃ l, e.find p = .ok (l, .file content) := by
  obtain ⟨l, hloc, hl, rfl, hdir, hlink⟩ := writeBytes_eq_ok h
  exact ⟨l, find_of_create hloc hl hdir hlink content⟩

/-- What has been written under a path is read under it. -/
theorem readText_of_writeText {text : Text} (h : d.writeText p text = .ok e) :
    e.readText p = .ok text := by
  obtain ⟨l, hfind⟩ := find_of_writeBytes h
  exact readText_of_find hfind

/-! ### Directories and copies -/

theorem ways_ensureDirectory (d : Disk) (p : Path) : Ways d (d.ensureDirectory p).2 := by
  unfold ensureDirectory
  cases hmake : d.makeDirectory p with
  | error fault => exact .refl d
  | ok e =>
    unfold makeDirectory at hmake
    simp only [bind, Except.bind] at hmake
    split at hmake
    · cases hmake
    · rename_i l hloc
      split at hmake
      · cases hmake
      · rename_i hnone
        cases hmake
        exact .of_le (le_put hnone .directory)

theorem ways_makeChain (above : Nat) (p : Path) (d : Disk) : Ways d (makeChain above p d).2 := by
  induction above generalizing p d with
  | zero => exact ways_ensureDirectory d p
  | succ above ih =>
    have hfirst := ways_ensureDirectory d p
    unfold makeChain
    split
    · rename_i e heq
      rw [heq] at hfirst
      split
      · exact hfirst
      · rename_i parent hparent
        have hchain := ih parent e
        split
        · rename_i f hmade
          rw [hmade] at hchain
          exact hfirst.trans (hchain.trans (ways_ensureDirectory f p))
        · rename_i fault f hmade
          rw [hmade] at hchain
          exact hfirst.trans hchain
    · exact hfirst

theorem ways_makeDirectories (d : Disk) (p : Path) : Ways d (d.makeDirectories p).2 := by
  unfold makeDirectories
  split
  · exact .refl d
  · exact ways_makeChain _ p d

theorem ways_copyContent (d : Disk) (source target : Path) :
    Ways d (d.copyContent source target).2 := by
  unfold copyContent
  cases hcopy : d.copyFile source target with
  | error fault => exact .refl d
  | ok copied =>
    unfold copyFile at hcopy
    simp only [bind, Except.bind] at hcopy
    -- the target is written twice: emptied, and filled with what is then in the source
    split at hcopy
    · cases hcopy
    split at hcopy
    · split at hcopy
      · cases hcopy
      rename_i emptied hempty
      split at hcopy
      · split at hcopy
        · cases hcopy
        · rename_i filled hfill
          cases hcopy
          exact (ways_writeBytes hempty).trans (ways_writeBytes hfill)
      · cases hcopy
    · cases hcopy

theorem ways_copyEach {copyEntry : Text → Disk → Except Failure Nat × Disk}
    (hentry : ∀ x d, Ways d (copyEntry x d).2) (names : List Text) (d : Disk) :
    Ways d (copyEach copyEntry names d).2 := by
  induction names generalizing d with
  | nil => exact .refl d
  | cons x names ih =>
    have hfirst := hentry x d
    unfold copyEach
    cases hcopy : copyEntry x d with
    | mk answer e =>
      rw [hcopy] at hfirst
      cases answer with
      | error failure => exact hfirst
      | ok count => exact hfirst.trans (ih e)

theorem ways_copyDirectory (listing : Listing) (depth : Nat) (l : Location) (source target : Path)
    (d : Disk) : Ways d (copyDirectory listing depth l source target d).2 := by
  induction depth generalizing l source target d with
  | zero => exact .refl d
  | succ depth ih =>
    have hmade := ways_makeDirectories d target
    unfold copyDirectory
    cases hmake : d.makeDirectories target with
    | mk answer e =>
      rw [hmake] at hmade
      cases answer with
      | error fault => exact hmade
      | ok u =>
        refine hmade.trans (ways_copyEach (fun x f => ?_) _ e)
        dsimp only
        split
        · exact ih ..
        · exact ways_copyContent ..

theorem ways_copyListed (d : Disk) (listing : Listing) (source target : Path) :
    Ways d (d.copyListed listing source target).2 := by
  unfold copyListed
  split
  · exact .refl d
  · split
    · exact .refl d
    · exact ways_copyDirectory ..
  · exact ways_copyContent ..

end ModulePack.Disk
