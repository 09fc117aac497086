import ModulePack.Proofs.Disk.Digests

/-!
# Copies of what stands apart

A copy to where nothing stands, of something that does not hold that place, is faithful
(`copy_faithful`): it has at each place what its original has there, or what a link there leads to,
nothing else changes, and the digests are the same. The order in which directories are listed does
not matter. What a copy makes and counts is known from `copyDirectory_spec`; that all of it can be
read in the end, and its original too (`ReadsAlike`), follows here by a second induction over the
tree, and the two digests from that.
-/

namespace ModulePack.Disk

variable {d d' e e' : Disk} {l k r t there : Location} {x : Text} {m n depth count : Nat}
  {node : Node} {content : Bytes} {p q source target : Path} {listing : Listing}

/-! ### Places where nothing stands -/

/-- The path names an entry of a directory, whatever slashes are at its end, and nothing stands
there. -/
def Vacant (d : Disk) (p : Path) (t : Location) : Prop :=
  d.locate .keep (trimSlashes p) = .ok t ∧ d.get? t = none

theorem Vacant.exists_entry (h : d.Vacant p t) (hd : d.WellFormed) : ∃ q m there x,
    d.Reaches q m there ∧ IsFileName x ∧ trimSlashes p = Path.append q x ∧ t = there ++ [x] := by
  have hp := (allowed_of_locate h.1).ne_nil
  obtain ⟨xs, x, m, there, hnames, hx, hpass, rfl⟩ := exists_entry_of_locate hd hp h.1 h.2
  obtain ⟨q, y, hq, hy, hslash⟩ := exists_append_of_trimSlashes hp
  have hlast : Path.names q ++ [y] = xs ++ [x] :=
    (names_of_trimSlashes hy hslash hq).symm.trans hnames
  obtain ⟨rfl, hyx⟩ := List.append_inj' hlast rfl
  obtain rfl : y = x := by simpa using hyx
  exact ⟨q, m, there, y, hpass, hx, hq, rfl⟩

/-- No file is written behind a path that ends in a slash. -/
theorem locate_create_of_slash (hreach : d.Reaches q m there) (hx : IsFileName x)
    (hp : trimSlashes p = Path.append q x) (hslash : trimSlashes p ≠ p) :
    d.locate .create p ≠ .ok k := by
  intro hloc
  have hnames := names_of_trimSlashes hx.ne_nil hx.no_slash hp
  have hsteps : steps p = Path.names q ++ [x, []] := by
    rcases List.eq_nil_or_concat' p with rfl | ⟨p, c, rfl⟩
    · exact absurd rfl hslash
    · rw [trimSlashes_concat] at hslash
      obtain rfl : c = '/' := by
        by_contra hc
        exact hslash (if_neg hc)
      rw [Path.names_append_slash, Path.names_nil, List.append_nil] at hnames
      rw [steps_slash, hnames]
      simp
  rw [locate_of_allowed (allowed_of_locate hloc), hsteps,
    Passes.walk_append hreach (by simp) (by simp), walk_cons hx.isEntryStep,
    if_pos ⟨rfl, rfl⟩] at hloc
  cases hloc

theorem exists_locate_of_copyContent (hok : (d.copyContent source target).1 = .ok count) :
    ∃ k, d.locate .create target = .ok k := by
  cases hloc : d.locate .create target with
  | ok k => exact ⟨k, rfl⟩
  | error fault =>
    exfalso
    have hwrite : d.writeBytes target [] = .error fault := by
      rw [writeBytes, hloc]
      rfl
    have hcopy : ∀ answer, d.copyFile source target ≠ .ok answer := by
      intro answer h
      unfold copyFile at h
      cases hfind : d.find source with
      | error fault' => simp [hfind, bind, Except.bind] at h
      | ok entry =>
        obtain ⟨l, node⟩ := entry
        cases node <;> simp [hfind, hwrite, bind, Except.bind] at h
    unfold copyContent at hok
    cases hfile : d.copyFile source target with
    | ok answer => exact hcopy answer hfile
    | error fault' =>
      rw [hfile] at hok
      cases hok

/-! ### Reading what has been copied -/

/-- What stands in the tree at `l` of `d`, other than directories, can be read from `e` behind the
path `source`, and the same is in files behind `target`, in the tree at `t`. -/
def ReadsAlike (d : Disk) (source : Path) (l : Location) (e : Disk) (target : Path) (t : Location) :
    Prop :=
  ∀ r node, d.get? (l ++ r) = some node → node ≠ .directory → ∃ content,
    e.readBytes (r.foldl Path.append source) = .ok content ∧
      e.find (r.foldl Path.append target) = .ok (t ++ r, .file content)

theorem ReadsAlike.mono (h : ReadsAlike d' source l e target t) (hd : d ≤ d') (he : e ≤ e') :
    ReadsAlike d source l e' target t := by
  intro r node hnode hne
  obtain ⟨content, hread, hfind⟩ := h r node (hd _ _ hnode) hne
  exact ⟨content, readBytes_of_le he hread, find_of_le he hfind⟩

theorem copyContent_reads (hd : d.WellFormed) (hreach : d.Reaches q m there) (hx : IsFileName x)
    (hfresh : d.get? (there ++ [x]) = none) (hl : d.get? l ≠ some .directory)
    (hok : (d.copyContent source (Path.append q x)).1 = .ok count) :
    ReadsAlike d source l (d.copyContent source (Path.append q x)).2 (Path.append q x)
      (there ++ [x]) := by
  rcases copyContent_cases source hreach hx hfresh with ⟨failure, h⟩ | ⟨k, content, hfind, ha, h⟩
  · rw [h] at hok
    cases hok
  rw [h]
  intro r node hnode hne
  have hr : r = [] := by
    by_contra hr
    rw [hd.get?_append_eq_none hr hl] at hnode
    cases hnode
  have hle := le_put hfresh (.file content)
  have hmade : (d.put (there ++ [x]) (.file content)).get? (there ++ [x]) = some (.file content) := by
    simp [get?_put]
  rw [hr, List.append_nil]
  refine ⟨content, readBytes_of_le hle (readBytes_eq_ok_iff.2 ⟨k, hfind⟩),
    find_eq_ok_iff.2 ⟨?_, hmade⟩⟩
  exact ((hreach.mono (.of_le hle)).locate_append hx ha).trans (walk_singleton hx (by simp [hmade]))

theorem copyEach_reads {copyEntry : Text → Disk → Except Failure Nat × Disk} {names : List Text}
    (hnames : names.Perm (d.names l)) (hd : d.WellFormed) (hl : d.get? l = some .directory)
    (hempty : d.NothingBelow t)
    (hmade : ∀ x ∈ names, ∀ f : Disk, f.WellFormed → d ≤ f → f.get? (t ++ [x]) = none →
      CopyMade f (l ++ [x]) (t ++ [x]) (copyEntry x f))
    (hreads : ∀ x ∈ names, ∀ f : Disk, f.WellFormed → d ≤ f → f.get? (t ++ [x]) = none →
      ∀ count, (copyEntry x f).1 = .ok count → ReadsAlike f (Path.append source x) (l ++ [x])
        (copyEntry x f).2 (Path.append target x) (t ++ [x]))
    (hok : (copyEach copyEntry names d).1 = .ok count) :
    ReadsAlike d source l (copyEach copyEntry names d).2 target t := by
  obtain ⟨-, hall⟩ := (copyEach_spec hd (hnames.nodup_iff.2 (names_nodup d l))
    (fun x _ => hempty (t ++ [x]) (by simp)) hmade).2 count hok
  intro r node hnode hne
  cases r with
  | nil =>
    rw [List.append_nil, hl] at hnode
    exact absurd (Option.some.inj hnode).symm hne
  | cons x r =>
    have hx : x ∈ names := by
      refine hnames.mem_iff.2 (mem_names.2 (Option.ne_none_iff_exists'.1 fun hnone => ?_))
      rw [hd.get?_eq_none_of_prefix hnone ⟨r, by simp⟩] at hnode
      cases hnode
    obtain ⟨f, hf⟩ := hall x hx
    obtain ⟨first, hfirst⟩ := hf.ok
    have hread := (hreads x hx f hf.wf hf.le hf.fresh first hfirst).mono hf.le hf.made_le
    simpa using hread r node (by simpa using hnode) hne

theorem copyEntry_reads (hd : d.WellFormed) (htarget : d.Reaches target m t) (hx : IsFileName x)
    (hfresh : d.get? (t ++ [x]) = none)
    (hdirectory : d.get? (l ++ [x]) = some .directory → ∀ count,
      (copyDirectory listing depth (l ++ [x]) (Path.append source x) (Path.append target x) d).1 =
        .ok count → ReadsAlike d (Path.append source x) (l ++ [x])
      (copyDirectory listing depth (l ++ [x]) (Path.append source x) (Path.append target x) d).2
      (Path.append target x) (t ++ [x]))
    (hok : (copyEntry listing depth l source target x d).1 = .ok count) :
    ReadsAlike d (Path.append source x) (l ++ [x]) (copyEntry listing depth l source target x d).2
      (Path.append target x) (t ++ [x]) := by
  unfold copyEntry at hok ⊢
  split at hok
  · rename_i hl
    rw [if_pos hl]
    exact hdirectory hl count hok
  · rename_i hl
    rw [if_neg hl]
    exact copyContent_reads hd htarget hx hfresh hl hok

theorem copyDirectory_reads (hlist : listing.Complete) (depth : Nat) (hd : d.WellFormed)
    (hsource : d.Reaches source n l) (hreach : d.Reaches q m there) (hx : IsFileName x)
    (hp : trimSlashes target = Path.append q x) (hfresh : d.get? (there ++ [x]) = none)
    (hok : (copyDirectory listing depth l source target d).1 = .ok count) :
    ReadsAlike d source l (copyDirectory listing depth l source target d).2 target
      (there ++ [x]) := by
  induction depth generalizing d l source target q there x count with
  | zero => cases hok
  | succ depth ih =>
    rcases copyDirectory_cases listing depth l source hd hreach hx hp hfresh with
      ⟨failure, hcopy⟩ | ⟨e, hopened, hcopy⟩
    · rw [hcopy] at hok
      cases hok
    rw [hcopy] at hok ⊢
    obtain ⟨-, -, hadds, htarget, hempty⟩ := hopened
    generalize there ++ [x] = t at *
    have hsource' := hsource.mono (.of_le hadds.le)
    have hname : ∀ y ∈ listing e l, IsFileName y := fun y hy =>
      isFileName_of_mem_names hadds.wf ((hlist e l).mem_iff.1 hy)
    have htrim : ∀ y ∈ listing e l, trimSlashes (Path.append target y) = Path.append target y :=
      fun y hy => trimSlashes_append target (hname y hy).ne_nil (hname y hy).no_slash
    refine (copyEach_reads (hlist e l) hadds.wf (hsource'.directory hadds.wf) hempty
      (fun y hy f hf hef hnone => ?_) (fun y hy f hf hef hnone first hfirst => ?_) hok).mono
      hadds.le (le_refl _)
    · have htarget' := htarget.mono (.of_le hef)
      have hsource'' := hsource'.mono (.of_le hef)
      exact copyEntry_made hf hsource'' htarget' (hname y hy) hnone fun hsub =>
        (copyDirectory_spec hlist depth hf (hsource''.append (hname y hy) hsub) htarget'
          (hname y hy) (htrim y hy) hnone).1
    · have htarget' := htarget.mono (.of_le hef)
      have hsource'' := hsource'.mono (.of_le hef)
      exact copyEntry_reads hf htarget' (hname y hy) hnone (fun hsub count hcount =>
        ih hf (hsource''.append (hname y hy) hsub) htarget' (hname y hy) (htrim y hy) hnone hcount)
        hfirst

/-! ### A copy to where nothing stands -/

/-- What there is after a copy from `source`, which leads to `l`, to `target`, which names `t`. -/
structure Landed (d : Disk) (source : Path) (l : Location) (e : Disk) (target : Path) (t : Location)
    (count : Nat) : Prop where
  adds : Adds (Under t) d e
  copied : Copied d l e t count
  reads : ReadsAlike d source l e target t
  leads : ∃ node, e.find target = .ok (t, node)
  not_link : d.get? l = some .directory → e.isLink target = false ∧ d.isLink source = false

theorem isLink_eq_false (hreach : d.Reaches q m there) (hx : IsFileName x)
    (hp : trimSlashes p = Path.append q x) (ha : Allowed p)
    (hdir : d.get? (there ++ [x]) = some .directory) : d.isLink p = false := by
  have hnames := names_of_trimSlashes hx.ne_nil hx.no_slash hp
  have hloc : d.locate .keep p = .ok (there ++ [x]) := by
    rw [locate_of_allowed ha]
    rcases steps_eq p with hsteps | hsteps
    · rw [hsteps, hnames, Passes.walk_append hreach (by simp) (by simp [hx.ne_nil]),
        walk_keep_singleton hx]
    · rw [hsteps, hnames, List.append_assoc, Passes.walk_append hreach (by simp) (by simp),
        List.singleton_append, walk_entry hx.isEntryStep hx.short (by simp), walkEntry, hdir]
      dsimp only
      rw [walk_stay rfl, walk_nil]
  rw [isLink, hloc]
  simp only [hdir]

theorem landed_of_copyContent (hd : d.WellFormed) (hfind : d.find source = .ok (l, node))
    (hvacant : d.Vacant target t) (hcopy : d.copyContent source target = (.ok count, e)) :
    Landed d source l e target t count := by
  obtain ⟨q, m, there, x, hreach, hx, hp, rfl⟩ := hvacant.exists_entry hd
  obtain ⟨k, hk⟩ := exists_locate_of_copyContent (by rw [hcopy])
  have htarget : trimSlashes target = target := by
    by_contra hslash
    exact locate_create_of_slash hreach hx hp hslash hk
  obtain rfl : target = Path.append q x := htarget.symm.trans hp
  rcases copyContent_cases source hreach hx hvacant.2 with
    ⟨failure, h⟩ | ⟨k, content, hfile, -, h⟩
  · rw [h] at hcopy
    cases hcopy
  obtain rfl := find_unique hfind hfile
  have hl := (find_eq_ok_iff.1 hfile).2
  have hok : (d.copyContent source (Path.append q x)).1 = .ok content.length := by rw [h]
  have hne : d.get? l ≠ some .directory := by simp [hl]
  have hreads := copyContent_reads hd hreach hx hvacant.2 hne hok
  rw [h] at hcopy hreads
  obtain ⟨rfl, rfl⟩ : content.length = count ∧
      d.put (there ++ [x]) (.file content) = e := by simpa using hcopy
  have hfollowed : d.followed l = some (.file content) := by rw [followed_of_ne (by simp [hl]), hl]
  have hmade := copyMade_file hd (hreach.directory hd) hx hvacant.2 hfollowed hne
  refine ⟨hmade.adds, hmade.copied _ rfl, hreads, ?_, fun hdir => ?_⟩
  · obtain ⟨content', -, hleads⟩ := hreads [] _ (by rwa [List.append_nil]) (by simp)
    rw [List.append_nil] at hleads
    exact ⟨.file content', hleads⟩
  · rw [hl] at hdir
    cases hdir

theorem landed_of_copyDirectory (hlist : listing.Complete) (hd : d.WellFormed)
    (hfind : d.find source = .ok (l, .directory)) (hvacant : d.Vacant target t)
    (hlink : d.isLink source = false)
    (hcopy : copyDirectory listing depth l source (Path.append target []) d = (.ok count, e)) :
    Landed d source l e target t count := by
  obtain ⟨q, m, there, x, hreach, hx, hp, rfl⟩ := hvacant.exists_entry hd
  obtain ⟨n, hsource⟩ := reaches_of_find hfind
  have hl := hsource.directory hd
  have hp' : trimSlashes (Path.append target []) = Path.append q x := by
    rw [trimSlashes_append_nil, hp]
  obtain ⟨hmade, hallowed⟩ := copyDirectory_spec hlist depth hd hsource hreach hx hp' hvacant.2
  have hok : (copyDirectory listing depth l source (Path.append target []) d).1 = .ok count := by
    rw [hcopy]
  have hreads := copyDirectory_reads hlist depth hd hsource hreach hx hp' hvacant.2 hok
  rw [hcopy] at hmade hallowed hreads
  have hcopied := hmade.copied count rfl
  have hroot := hcopied.get?_root hl (by simp)
  have htarget : target ≠ [] := by
    rintro rfl
    exact Path.append_ne_nil q hx.ne_nil hx.no_slash hp.symm
  have ha : Allowed target :=
    allowed_of_prefix htarget (Path.prefix_append target (by simp)) (hallowed (by simp [hroot]))
  have hreach' := hreach.mono (.of_le hmade.adds.le)
  have hleads : e.Reaches target m (there ++ [x]) := by
    have hnamed := hreach'.append hx hroot
    rwa [Reaches, ← hp, names_trimSlashes] at hnamed
  refine ⟨hmade.adds, hcopied, fun r node hnode hne => ?_, ⟨_, hleads.find hmade.adds.wf ha⟩,
    fun _ => ⟨isLink_eq_false hreach' hx hp ha hroot, hlink⟩⟩
  -- the slash that is appended to the target is lost with the first name
  cases r with
  | nil =>
    rw [List.append_nil, hl] at hnode
    exact absurd (Option.some.inj hnode).symm hne
  | cons y r =>
    obtain ⟨content, hread, hcopyfind⟩ := hreads (y :: r) node hnode hne
    have hy := hd.name hnode y (by simp)
    rw [List.foldl_cons, Path.append_append_nil target (Path.isAbsolute_of_no_slash hy.no_slash)]
      at hcopyfind
    exact ⟨content, hread, hcopyfind⟩

theorem landed_of_copy (hlist : listing.Complete) (hd : d.WellFormed)
    (hfind : d.find source = .ok (l, node)) (hvacant : d.Vacant target t)
    (hcopy : d.copyListed listing source target = (.ok count, e)) :
    Landed d source l e target t count := by
  unfold copyListed at hcopy
  rw [hfind] at hcopy
  cases node with
  | file content => exact landed_of_copyContent hd hfind hvacant hcopy
  | link link => exact landed_of_copyContent hd hfind hvacant hcopy
  | directory =>
    dsimp only at hcopy
    split at hcopy
    · cases hcopy
    · rename_i hlink
      exact landed_of_copyDirectory hlist hd hfind hvacant (by simpa using hlink) hcopy

/-! ### Originals that stand apart -/

/-- The tree at `l` holds nothing that is at or below `t`. -/
theorem not_prefix_append (hd : d.WellFormed) (hl : d.get? l = some node) (ht : d.get? t = none)
    (hapart : ¬l <+: t) (r : Location) : ¬t <+: l ++ r := by
  intro hprefix
  rcases List.prefix_or_prefix_of_prefix hprefix (List.prefix_append l r) with htl | hlt
  · rw [hd.get?_eq_none_of_prefix ht htl] at hl
    cases hl
  · exact hapart hlt

namespace Landed

section

variable (h : Landed d source l e target t count)
include h

theorem outside (hk : ¬t <+: k) : e.get? k = d.get? k :=
  h.adds.get?_eq fun _ hunder => hk hunder.1

theorem ne_link (hd : d.WellFormed) (ht : d.get? t = none) (link : Path) :
    e.get? (t ++ r) ≠ some (.link link) := by
  intro hlink
  have hnone := hd.get?_eq_none_of_prefix ht (List.prefix_append t r)
  exact (h.adds.new _ _ hlink hnone).2 link rfl

theorem hasFile_copy (hd : d.WellFormed) (ht : d.get? t = none) :
    e.HasFile t r content ↔ e.get? (t ++ r) = some (.file content) := by
  rw [HasFile, followed_of_ne (h.ne_link hd ht)]

end

section

variable (h : Landed d source l e target t count) (hd : d.WellFormed)
  (hfind : d.find source = .ok (l, node))
include h hd hfind

theorem exists_file {other : Node} (hother : d.get? (l ++ r) = some other)
    (hne : other ≠ .directory) :
    ∃ content, e.HasFile l r content ∧ e.get? (t ++ r) = some (.file content) := by
  obtain ⟨content, hread, hcopy⟩ := h.reads r other hother hne
  refine ⟨content, ?_, (find_eq_ok_iff.1 hcopy).2⟩
  have hsource := find_of_le h.adds.le hfind
  by_cases hr : r = []
  · -- the original is a file itself
    rw [hr] at hread ⊢
    obtain ⟨k, hk⟩ := readBytes_eq_ok_iff.1 hread
    obtain rfl := find_unique hsource hk
    have hl := (find_eq_ok_iff.1 hk).2
    rw [HasFile, List.append_nil, followed_of_ne (by simp [hl]), hl]
  · have hl := hd.directory_of_append hr hother
    obtain rfl : node = .directory := by
      rw [(find_eq_ok_iff.1 hfind).2] at hl
      exact Option.some.inj hl
    obtain ⟨n, hreach⟩ := reaches_of_find hsource
    exact hasFile_of_readBytes hreach h.adds.wf hr (h.adds.le _ _ hother) hread

end

variable (h : Landed d source l e target t count) (hd : d.WellFormed)
  (hfind : d.find source = .ok (l, node)) (ht : d.get? t = none) (hapart : ¬l <+: t)
include h hd hfind ht hapart

theorem original (r : Location) : e.get? (l ++ r) = d.get? (l ++ r) :=
  h.outside (not_prefix_append hd (find_eq_ok_iff.1 hfind).2 ht hapart r)

/-- At each place, either the original has a directory or nothing, and so has the copy, or both have
files. -/
theorem cases (r : Location) :
    (e.get? (t ++ r) = d.get? (l ++ r) ∧
      ∀ other, d.get? (l ++ r) = some other → other = .directory) ∨
    ∃ other content, d.get? (l ++ r) = some other ∧ other ≠ .directory ∧ e.HasFile l r content ∧
      e.get? (t ++ r) = some (.file content) := by
  by_cases hfile : ∃ other, d.get? (l ++ r) = some other ∧ other ≠ .directory
  · obtain ⟨other, hother, hne⟩ := hfile
    obtain ⟨content, hcopy⟩ := h.exists_file hd hfind hother hne
    exact .inr ⟨other, content, hother, hne, hcopy⟩
  have hno : ∀ other, d.get? (l ++ r) = some other → other = .directory := fun other hother =>
    Classical.not_not.1 fun hne => hfile ⟨other, hother, hne⟩
  refine .inl ⟨?_, hno⟩
  -- the copy is what has been there on `f`, which is what has been there all along
  obtain ⟨f, hdf, hfe, heq⟩ := h.copied.mirror r
  have hf : f.get? (l ++ r) = d.get? (l ++ r) := by
    cases hnode : d.get? (l ++ r) with
    | some other => exact hdf _ _ hnode
    | none =>
      refine Option.eq_none_iff_forall_ne_some.2 fun other hother => ?_
      have horiginal := h.original hd hfind ht hapart r
      rw [hnode, hfe _ _ hother] at horiginal
      cases horiginal
  rw [heq, followed_of_ne, hf]
  rintro link hlink
  rw [hf] at hlink
  cases hno _ hlink

theorem files_iff : e.get? (t ++ r) = some (.file content) ↔ e.HasFile l r content := by
  have horiginal := h.original hd hfind ht hapart r
  rcases h.cases hd hfind ht hapart r with ⟨heq, hno⟩ | ⟨other, content', -, -, hfile, hcopy⟩
  · have hne : ∀ link, e.get? (l ++ r) ≠ some (.link link) := fun link hlink => by
      cases hno _ (horiginal.symm.trans hlink)
    rw [HasFile, followed_of_ne hne, heq, horiginal]
  · rw [hcopy, HasFile, show e.followed (l ++ r) = _ from hfile]

theorem directories_iff :
    e.get? (t ++ r) = some .directory ↔ d.get? (l ++ r) = some .directory := by
  rcases h.cases hd hfind ht hapart r with ⟨heq, -⟩ | ⟨other, content, hother, hne, -, hcopy⟩
  · rw [heq]
  · rw [hcopy, hother]
    simpa using hne

theorem files_eq : e.files l = e.files t :=
  files_congr fun r content => by rw [h.hasFile_copy hd ht, h.files_iff hd hfind ht hapart]

theorem readable_source : e.Readable source l := by
  intro r other hr hother hne
  rw [← foldl_append_location h.adds.wf hr hother]
  rw [h.original hd hfind ht hapart] at hother
  obtain ⟨content, hread, -⟩ := h.reads r other hother hne
  exact ⟨content, hread⟩

theorem readable_target : e.Readable target t := by
  intro r other hr hother hne
  rw [← foldl_append_location h.adds.wf hr hother]
  rcases h.cases hd hfind ht hapart r with ⟨heq, hno⟩ | ⟨other', content, hother', hne', -⟩
  · exact absurd (hno other (heq.symm.trans hother)) hne
  · obtain ⟨content, -, hcopy⟩ := h.reads r other' hother' hne'
    exact ⟨content, readBytes_eq_ok_iff.2 ⟨_, hcopy⟩⟩

theorem digestBytes_eq :
    ∃ bytes, e.digestBytes target = .ok bytes ∧ e.digestBytes source = .ok bytes := by
  have hsource := find_of_le h.adds.le hfind
  have hl := (find_eq_ok_iff.1 hfind).2
  by_cases hdir : node = .directory
  · subst hdir
    obtain ⟨other, htarget⟩ := h.leads
    obtain rfl : other = .directory := by
      have hroot := h.copied.get?_root hl (by simp)
      rw [(find_eq_ok_iff.1 htarget).2] at hroot
      exact Option.some.inj hroot
    obtain ⟨hlink, hlink'⟩ := h.not_link hl
    refine ⟨_, (digestBytes_eq_ok_iff h.adds.wf htarget).2
      ⟨hlink, h.readable_target hd hfind ht hapart, rfl⟩, (digestBytes_eq_ok_iff h.adds.wf hsource).2
      ⟨?_, h.readable_source hd hfind ht hapart, ?_⟩⟩
    · rw [isLink_of_le h.adds.le hd hfind, hlink']
    · rw [h.files_eq hd hfind ht hapart]
  · obtain ⟨content, hread, hcopy⟩ := h.reads [] node (by rwa [List.append_nil]) hdir
    obtain ⟨k, hk⟩ := readBytes_eq_ok_iff.1 hread
    refine ⟨content, ?_, ?_⟩
    · rw [digestBytes, show e.find target = _ from hcopy]
    · rw [digestBytes, show e.find source = _ from hk]

theorem digest_eq : ∃ digest, e.digest target = .ok digest ∧ e.digest source = .ok digest ∧
    ∀ before, d.digest source = .ok before → before = digest := by
  obtain ⟨bytes, htarget, hsource⟩ := h.digestBytes_eq hd hfind ht hapart
  refine ⟨hexDigest bytes, by rw [digest, htarget]; rfl, by rw [digest, hsource]; rfl,
    fun before hbefore => ?_⟩
  have hkept := digest_of_le h.adds.le hd hfind (fun k hk => ?_) hbefore
  · rw [digest, hsource] at hkept
    exact (Except.ok.inj hkept).symm
  · obtain ⟨r, rfl⟩ := hk
    exact h.original hd hfind ht hapart r

end Landed

/-- The tree at `t` of `e`, to which `target` leads, is a copy of what `source` leads to, `l`, made
on `d`. -/
structure Faithful (d : Disk) (source : Path) (l : Location) (e : Disk) (target : Path) (t : Location)
    (count : Nat) : Prop where
  leads : ∃ node, e.find target = .ok (t, node)
  outside : ∀ k, ¬t <+: k → e.get? k = d.get? k
  directories : ∀ r, e.get? (t ++ r) = some .directory ↔ d.get? (l ++ r) = some .directory
  /-- Links of the original count as what they lead to. -/
  files : ∀ r content, e.get? (t ++ r) = some (.file content) ↔ e.HasFile l r content
  /-- There are no links in the copy, but a file for each link of the original. -/
  links : ∀ r link, e.get? (t ++ r) ≠ some (.link link) ∧
    (d.get? (l ++ r) = some (.link link) → ∃ content, e.get? (t ++ r) = some (.file content))
  size : e.size t = count
  digest : ∃ digest, e.digest target = .ok digest ∧ e.digest source = .ok digest ∧
    ∀ before, d.digest source = .ok before → before = digest

/-- A copy to where nothing stands is faithful, in whatever order directories are listed, if its
place is not in the original. -/
theorem copy_faithful (hlist : listing.Complete) (hd : d.WellFormed)
    (hfind : d.find source = .ok (l, node)) (hvacant : d.Vacant target t) (hapart : ¬l <+: t)
    (hcopy : d.copyListed listing source target = (.ok count, e)) :
    Faithful d source l e target t count := by
  have h := landed_of_copy hlist hd hfind hvacant hcopy
  have ht := hvacant.2
  refine ⟨h.leads, fun k => h.outside, fun r => h.directories_iff hd hfind ht hapart,
    fun r content => h.files_iff hd hfind ht hapart, fun r link => ⟨h.ne_link hd ht link, ?_⟩, ?_,
    h.digest_eq hd hfind ht hapart⟩
  · intro hlink
    obtain ⟨content, -, hfile⟩ := h.exists_file hd hfind hlink (by simp)
    exact ⟨content, hfile⟩
  · rw [h.copied.size t (List.prefix_refl t), size_eq_zero, Nat.zero_add]
    intro k content hk hfile
    rw [hd.get?_eq_none_of_prefix ht hk] at hfile
    cases hfile

/-- A tree with an empty directory and a link to one of its files. -/
def smallTree : Disk :=
  ⟨[([['a']], .directory),
    ([['a'], ['e']], .directory),
    ([['a'], ['s']], .directory),
    ([['a'], ['s'], ['f']], .file (Bytes.ofText ['1'])),
    ([['a'], ['x']], .link ['s', '/', 'f'])], by decide⟩

theorem copy_faithful_smallTree : ∃ e, smallTree.copyListed (fun d l => (d.names l).reverse)
    ['/', 'a'] ['/', 'b', '/'] = (.ok 2, e) ∧
      Faithful smallTree ['/', 'a'] [['a']] e ['/', 'b', '/'] [['b']] 2 := by
  have hfind : smallTree.find ['/', 'a'] = .ok ([['a']], .directory) := by decide +kernel
  have hvacant : smallTree.Vacant ['/', 'b', '/'] [['b']] := ⟨by decide +kernel, by decide +kernel⟩
  have hcopy : (smallTree.copyListed (fun d l => (d.names l).reverse) ['/', 'a'] ['/', 'b', '/']).1 =
      .ok 2 := by decide +kernel
  refine ⟨_, Prod.ext hcopy rfl, ?_⟩
  exact copy_faithful (fun d l => (d.names l).reverse_perm) (by decide +kernel) hfind hvacant
    (by decide) (Prod.ext hcopy rfl)

end ModulePack.Disk
