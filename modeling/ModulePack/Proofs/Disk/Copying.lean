import ModulePack.Disk.Tree
import ModulePack.Proofs.Disk.Writing

/-!
# Copying files and trees

A copy to where nothing stands adds entries at and below that location, none of them a link, and
changes nothing else (`copy_spec`). Of a copy that succeeds, `Copied` says that it counts the bytes
it has added and that each of its entries is what its original was at some time while it was made,
with the content of what links lead to. So nothing has to be known about where the original is: a
tree may even be copied into itself.
-/

namespace ModulePack

def Node.isLink : Node → Bool
  | .link _ => true
  | _ => false

theorem Node.isLink_iff {node : Node} : node.isLink = true ↔ ∃ target, node = .link target := by
  cases node <;> simp [isLink]

namespace Disk

variable {d e f : Disk} {l k t there zone : Location} {x y : Text} {m n depth : Nat}
  {node : Node} {content : Bytes} {p q source target : Path} {listing : Listing}

/-! ### What links lead to -/

theorem mem_entries_of_link (h : d.get? l = some (.link target)) : (l, .link target) ∈ d.entries := by
  refine (get?_eq_some_iff ?_).1 h
  rintro rfl
  simp at h

/-- What stands at a location, or what it leads to if it is a link. -/
def followed (d : Disk) (l : Location) : Option Node :=
  match d.get? l with
  | some (.link _) =>
    match d.walk .follow maxLinks [] l with
    | .ok k => d.get? k
    | .error _ => none
  | other => other

theorem followed_of_ne (h : ∀ target, d.get? l ≠ some (.link target)) : d.followed l = d.get? l := by
  unfold followed
  split
  · rename_i target hlink
    exact absurd hlink (h target)
  · rfl

theorem followed_of_find (hd : d.WellFormed) (hreach : d.Reaches p m l) (hx : IsFileName x)
    (hfind : d.find (Path.append p x) = .ok (k, node)) : d.followed (l ++ [x]) = some node := by
  obtain ⟨hloc, hk⟩ := find_eq_ok_iff.1 hfind
  rw [hreach.locate_append hx (allowed_of_locate hloc)] at hloc
  by_cases hlink : ∃ target, d.get? (l ++ [x]) = some (.link target)
  · obtain ⟨target, hlink⟩ := hlink
    have hwalk : d.walk .follow maxLinks [] (l ++ [x]) = .ok k := by
      rw [(passes_location hd (hreach.directory hd) maxLinks).walk_append (by simp)
        (by simp [hx.ne_nil])]
      exact walk_of_links_le hreach.links_le hloc
    simp only [followed, hlink, hwalk, hk]
  · have hne : ∀ target, d.get? (l ++ [x]) ≠ some (.link target) := fun target h => hlink ⟨target, h⟩
    rw [walk_singleton hx hne] at hloc
    rw [followed_of_ne hne, Except.ok.inj hloc, hk]

/-! ### Copies -/

/-- No link, and at or below `t`. -/
def Under (t k : Location) (node : Node) : Prop := t <+: k ∧ ∀ target, node ≠ .link target

theorem Under.name_eq {r : Location} (h : Under (t ++ [x]) (t ++ y :: r) node) : x = y := by
  simpa [List.prefix_append_right_inj] using h.1

/-- The entry `t` of `e` is a copy of what was at `l` while it was made, beginning with `d`. -/
structure Copied (d : Disk) (l : Location) (e : Disk) (t : Location) (count : Nat) : Prop where
  size : ∀ z, z <+: t → e.size z = d.size z + count
  mirror : ∀ r, ∃ f, d ≤ f ∧ f ≤ e ∧ e.get? (t ++ r) = f.followed (l ++ r)

/-- A copy of `l` to `t` adds nothing but what it makes there, and if it succeeds it is complete. -/
structure CopyMade (d : Disk) (l t : Location) (outcome : Except Failure Nat × Disk) : Prop where
  adds : Adds (Under t) d outcome.2
  copied : ∀ count, outcome.1 = .ok count → Copied d l outcome.2 t count

theorem CopyMade.refused (hd : d.WellFormed) (l t : Location) (failure : Failure) :
    CopyMade d l t (.error failure, d) := ⟨.refl hd, fun _ hok => by cases hok⟩

theorem Copied.of_le {count : Nat} (h : Copied e l f t count) (hde : d ≤ e)
    (hsize : ∀ z, e.size z = d.size z) : Copied d l f t count where
  size z hz := by rw [h.size z hz, hsize z]
  mirror r := by
    obtain ⟨g, heg, hgf, heq⟩ := h.mirror r
    exact ⟨g, le_trans hde heg, hgf, heq⟩

/-- A copy of a file or a directory is one itself. -/
theorem Copied.get?_root {count : Nat} (h : Copied d l e t count) (hl : d.get? l = some node)
    (hlink : ∀ target, node ≠ .link target) : e.get? t = some node := by
  obtain ⟨f, hdf, -, heq⟩ := h.mirror []
  have hf := hdf l node hl
  rw [List.append_nil, List.append_nil, followed_of_ne, hf] at heq
  · exact heq
  · exact fun target h => hlink target (by rw [hf] at h; exact Option.some.inj h)

theorem copyMade_file (hd : d.WellFormed) (hdir : d.get? there = some .directory)
    (hx : IsFileName x) (hfresh : d.get? (there ++ [x]) = none)
    (hl : d.followed l = some (.file content)) (hbelow : d.get? l ≠ some .directory) :
    CopyMade d l (there ++ [x]) (.ok content.length, d.put (there ++ [x]) (.file content)) := by
  have hadds : Adds (Under (there ++ [x])) d (d.put (there ++ [x]) (.file content)) :=
    .put hd hdir hx hfresh ⟨List.prefix_refl _, by simp⟩
  refine ⟨hadds, fun count hok => ?_⟩
  obtain rfl := Except.ok.inj hok
  refine ⟨fun z hz => by rw [size_put hfresh, if_pos hz, Node.size], fun r => ?_⟩
  refine ⟨d, le_refl d, hadds.le, ?_⟩
  have hfile : (d.put (there ++ [x]) (.file content)).get? (there ++ [x]) = some (.file content) := by
    simp [get?_put]
  by_cases hr : r = []
  · rw [hr, List.append_nil, List.append_nil, hl, hfile]
  · have hnone : d.get? (l ++ r) = none := hd.get?_append_eq_none hr hbelow
    rw [hadds.wf.get?_append_eq_none hr (by simp [hfile]),
      followed_of_ne (by simp [hnone]), hnone]

theorem copyContent_cases (source : Path) (hreach : d.Reaches q m there) (hx : IsFileName x)
    (hfresh : d.get? (there ++ [x]) = none) :
    (∃ failure, d.copyContent source (Path.append q x) = (.error failure, d)) ∨
    ∃ l content, d.find source = .ok (l, .file content) ∧ Allowed (Path.append q x) ∧
      d.copyContent source (Path.append q x) =
        (.ok content.length, d.put (there ++ [x]) (.file content)) := by
  have hrefused : ∀ fault, d.copyFile source (Path.append q x) = .error fault →
      ∃ failure, d.copyContent source (Path.append q x) = (.error failure, d) := fun fault h =>
    ⟨.io source fault, by rw [copyContent, h]⟩
  cases hfind : d.find source with
  | error fault => exact .inl (hrefused fault (by rw [copyFile, hfind]; rfl))
  | ok entry =>
    obtain ⟨l, node⟩ := entry
    cases node with
    | directory => exact .inl (hrefused .notAFile (by rw [copyFile, hfind]; rfl))
    | link target => exact .inl (hrefused .notAFile (by rw [copyFile, hfind]; rfl))
    | file content =>
      have hl := (find_eq_ok_iff.1 hfind).2
      rcases writeBytes_of_reaches hreach hx.toIsName (by simp [hfresh]) with
        ⟨fault, hwrite⟩ | ⟨-, ha, -, hwrite⟩
      · exact .inl (hrefused fault (by rw [copyFile, hfind]; simp [bind, Except.bind, hwrite]))
      have hkept : (d.put (there ++ [x]) (.file [])).get? l = some (.file content) :=
        le_put hfresh _ l _ hl
      have hreach' := hreach.mono (.of_le (le_put hfresh (.file [])))
      have hcopy : d.copyFile source (Path.append q x) =
          ((d.put (there ++ [x]) (.file [])).writeBytes (Path.append q x) content).map
            fun e => (content.length, e) := by
        rw [copyFile, hfind]
        simp only [bind, Except.bind, hwrite, hkept]
        cases (d.put (there ++ [x]) (.file [])).writeBytes (Path.append q x) content <;> rfl
      rcases writeBytes_of_reaches hreach' hx.toIsName (by simp [get?_put]) with
        ⟨fault, hwrite'⟩ | ⟨-, -, -, hwrite'⟩
      · exact .inl (hrefused fault (by rw [hcopy, hwrite']; rfl))
      · refine .inr ⟨l, content, rfl, ha, ?_⟩
        rw [copyContent, hcopy, hwrite', put_put]
        rfl

/-! ### Trees -/

/-- The entry `x` of the directory `t` of `e` is as it has been made on the disk `f`, which holds all
of `d`. -/
structure EntryMade (copyEntry : Text → Disk → Except Failure Nat × Disk) (d : Disk) (t : Location)
    (x : Text) (f e : Disk) : Prop where
  wf : f.WellFormed
  le : d ≤ f
  fresh : f.get? (t ++ [x]) = none
  ok : ∃ count, (copyEntry x f).1 = .ok count
  made_le : (copyEntry x f).2 ≤ e
  same : ∀ r, e.get? (t ++ x :: r) = (copyEntry x f).2.get? (t ++ x :: r)

/-- Copies to different entries of a directory do not get in each other's way: each is there in the
end as it has been made. -/
theorem copyEach_spec {copyEntry : Text → Disk → Except Failure Nat × Disk} {names : List Text}
    (hd : d.WellFormed) (hnodup : names.Nodup) (hfresh : ∀ x ∈ names, d.get? (t ++ [x]) = none)
    (hentry : ∀ x ∈ names, ∀ f : Disk, f.WellFormed → d ≤ f → f.get? (t ++ [x]) = none →
      CopyMade f (l ++ [x]) (t ++ [x]) (copyEntry x f)) :
    Adds (fun k node => ∃ x ∈ names, Under (t ++ [x]) k node) d (copyEach copyEntry names d).2 ∧
    ∀ count, (copyEach copyEntry names d).1 = .ok count →
      (∀ z, z <+: t → (copyEach copyEntry names d).2.size z = d.size z + count) ∧
      ∀ x ∈ names, ∃ f, EntryMade copyEntry d t x f (copyEach copyEntry names d).2 := by
  induction names generalizing d with
  | nil =>
    refine ⟨.refl hd, fun count hok => ⟨fun z _ => ?_, by simp⟩⟩
    obtain rfl : 0 = count := by simpa [copyEach] using hok
    rfl
  | cons x names ih =>
    obtain ⟨hnot, hnodup⟩ := List.nodup_cons.1 hnodup
    obtain ⟨hadds, hcopied⟩ := hentry x (by simp) d hd (le_refl d) (hfresh x (by simp))
    have hfirst : Adds (fun k node => ∃ y ∈ x :: names, Under (t ++ [y]) k node) d
        (copyEntry x d).2 := hadds.mono fun k node h => ⟨x, by simp, h⟩
    unfold copyEach
    cases hcopy : copyEntry x d with
    | mk answer e =>
      rw [hcopy] at hadds hcopied hfirst
      cases answer with
      | error failure => exact ⟨hfirst, fun count hok => by cases hok⟩
      | ok first =>
        have hfresh' : ∀ y ∈ names, e.get? (t ++ [y]) = none := by
          intro y hy
          have hother : ∀ node, ¬Under (t ++ [x]) (t ++ [y]) node := by
            intro node hunder
            obtain rfl := hunder.name_eq
            exact hnot hy
          rw [hadds.get?_eq hother]
          exact hfresh y (by simp [hy])
        obtain ⟨hrest, hcount⟩ := ih hadds.wf hnodup hfresh' fun y hy f hf hef hnone =>
          hentry y (by simp [hy]) f hf (le_trans hadds.le hef) hnone
        refine ⟨hfirst.trans (hrest.mono fun k node ⟨y, hy, h⟩ => ⟨y, by simp [hy], h⟩),
          fun count hok => ?_⟩
        obtain ⟨rest, hrestok, rfl⟩ : ∃ rest, (copyEach copyEntry names e).1 = .ok rest ∧
            first + rest = count := by
          dsimp only at hok
          cases hr : (copyEach copyEntry names e).1 with
          | error failure => rw [hr] at hok; cases hok
          | ok rest => rw [hr] at hok; exact ⟨rest, rfl, Except.ok.inj hok⟩
        obtain ⟨hsizes, hmade⟩ := hcount rest hrestok
        refine ⟨fun z hz => ?_, fun y hy => ?_⟩
        · rw [hsizes z hz, (hcopied first rfl).size z (hz.trans (List.prefix_append ..)),
            Nat.add_assoc]
        rcases List.mem_cons.1 hy with rfl | hy
        · -- what has been copied first is not touched again
          refine ⟨d, hd, le_refl d, hfresh y (by simp), ⟨first, by rw [hcopy]⟩, ?_, fun r => ?_⟩
          · rw [hcopy]
            exact hrest.le
          have hkept : ∀ node, ¬∃ z ∈ names, Under (t ++ [z]) (t ++ y :: r) node := by
            rintro node ⟨z, hz, hunder⟩
            obtain rfl := hunder.name_eq
            exact hnot hz
          rw [hcopy]
          exact hrest.get?_eq hkept
        · obtain ⟨f, hf⟩ := hmade y hy
          exact ⟨f, { hf with le := le_trans hadds.le hf.le }⟩

/-- Every name in a directory is listed, and listed once. -/
def Listing.Complete (listing : Listing) : Prop := ∀ (d : Disk) l, (listing d l).Perm (d.names l)

theorem complete_names : Listing.Complete names := fun d l => .refl (d.names l)

theorem copyEach_names {copyEntry : Text → Disk → Except Failure Nat × Disk} {names : List Text}
    (hnames : names.Perm (d.names l)) (hd : d.WellFormed)
    (hl : d.get? l = some .directory) (ht : d.get? t = some .directory) (hempty : d.NothingBelow t)
    (hentry : ∀ x ∈ names, ∀ f : Disk, f.WellFormed → d ≤ f → f.get? (t ++ [x]) = none →
      CopyMade f (l ++ [x]) (t ++ [x]) (copyEntry x f)) :
    CopyMade d l t (copyEach copyEntry names d) := by
  obtain ⟨hadds, hcount⟩ := copyEach_spec hd (hnames.nodup_iff.2 (names_nodup d l))
    (fun x _ => hempty (t ++ [x]) (by simp)) hentry
  refine ⟨hadds.mono fun k node ⟨x, _, hunder⟩ =>
    ⟨(List.prefix_append ..).trans hunder.1, hunder.2⟩, fun count hok => ?_⟩
  obtain ⟨hsizes, hmade⟩ := hcount count hok
  refine ⟨hsizes, fun r => ?_⟩
  cases r with
  | nil =>
    refine ⟨d, le_refl d, hadds.le, ?_⟩
    rw [List.append_nil, List.append_nil, followed_of_ne (by simp [hl]), hl]
    exact hadds.le _ _ ht
  | cons x r =>
    by_cases hx : x ∈ names
    · obtain ⟨f, hf⟩ := hmade x hx
      obtain ⟨first, hfirst⟩ := hf.ok
      obtain ⟨g, hfg, hge, heq⟩ :=
        ((hentry x hx f hf.wf hf.le hf.fresh).copied first hfirst).mirror r
      refine ⟨g, le_trans hf.le hfg, le_trans hge hf.made_le, ?_⟩
      rw [hf.same r]
      simpa using heq
    · -- nothing of that name was in the tree, and nothing has been copied there
      refine ⟨d, le_refl d, hadds.le, ?_⟩
      have hother : ∀ node, ¬∃ z ∈ names, Under (t ++ [z]) (t ++ x :: r) node := by
        rintro node ⟨z, hz, hunder⟩
        obtain rfl := hunder.name_eq
        exact hx hz
      have hnone : d.get? (l ++ x :: r) = none := by
        refine hd.get?_eq_none_of_prefix (l := l ++ [x]) ?_ ⟨r, by simp⟩
        exact Option.eq_none_iff_forall_ne_some.2 fun node hnode =>
          hx (hnames.mem_iff.2 (mem_names.2 ⟨node, hnode⟩))
      rw [hadds.get?_eq hother, hempty _ (by simp), followed_of_ne (by simp [hnone]), hnone]

theorem copyMade_entry (hd : d.WellFormed) (hsource : d.Reaches source n l)
    (hreach : d.Reaches q m there) (hx : IsFileName x) (hl : d.get? (l ++ [x]) ≠ some .directory)
    (hfresh : d.get? (there ++ [x]) = none) :
    CopyMade d (l ++ [x]) (there ++ [x])
      (d.copyContent (Path.append source x) (Path.append q x)) := by
  rcases copyContent_cases (Path.append source x) hreach hx hfresh with
    ⟨failure, h⟩ | ⟨k, content, hfind, -, h⟩
  · rw [h]
    exact .refused hd _ _ failure
  · rw [h]
    exact copyMade_file hd (hreach.directory hd) hx hfresh
      (followed_of_find hd hsource hx hfind) hl

/-- The disk `e` is `d` with a new directory at `t`, to which the path `p` leads. -/
structure Opened (d e : Disk) (p : Path) (m : Nat) (t : Location) : Prop where
  eq : e = d.put t .directory
  allowed : Allowed p
  adds : Adds (Under t) d e
  reaches : e.Reaches p m t
  empty : e.NothingBelow t

theorem Opened.size (h : Opened d e p m t) (hfresh : d.get? t = none) (z : Location) :
    e.size z = d.size z := by
  rw [h.eq, size_put hfresh]
  simp [Node.size]

/-- How an entry of a directory is copied. -/
def copyEntry (listing : Listing) (depth : Nat) (l : Location) (source target : Path) (x : Text)
    (d : Disk) : Except Failure Nat × Disk :=
  if d.get? (l ++ [x]) = some .directory then
    copyDirectory listing depth (l ++ [x]) (Path.append source x) (Path.append target x) d
  else d.copyContent (Path.append source x) (Path.append target x)

theorem copyEntry_made (hd : d.WellFormed) (hsource : d.Reaches source n l)
    (htarget : d.Reaches target m t) (hx : IsFileName x) (hfresh : d.get? (t ++ [x]) = none)
    (hdirectory : d.get? (l ++ [x]) = some .directory → CopyMade d (l ++ [x]) (t ++ [x])
      (copyDirectory listing depth (l ++ [x]) (Path.append source x) (Path.append target x) d)) :
    CopyMade d (l ++ [x]) (t ++ [x]) (copyEntry listing depth l source target x d) := by
  unfold copyEntry
  split
  · rename_i hl
    exact hdirectory hl
  · rename_i hl
    exact copyMade_entry hd hsource htarget hx hl hfresh

/-- Where nothing stands, a directory is refused, or an empty one is made. -/
theorem makeDirectories_cases (hd : d.WellFormed) (hreach : d.Reaches q m there)
    (hx : IsFileName x) (hp : trimSlashes target = Path.append q x)
    (hfresh : d.get? (there ++ [x]) = none) :
    (∃ fault, d.makeDirectories target = (.error fault, d)) ∨
    ∃ e, Opened d e target m (there ++ [x]) ∧ d.makeDirectories target = (.ok (), e) := by
  rcases makeDirectories_of_reaches hreach hx hp with ⟨-, ha, hmake⟩ | ⟨answer, hmake, hanswer⟩
  · refine .inr ⟨_, ⟨rfl, ha, ?_, ?_, nothingBelow_put hd hfresh⟩, hmake⟩
    · exact .put hd (hreach.directory hd) hx hfresh ⟨List.prefix_refl _, by simp⟩
    · have hnamed := (hreach.mono (.of_le (le_put hfresh .directory))).append hx (by simp [get?_put])
      rwa [Reaches, ← hp, names_trimSlashes] at hnamed
  · cases answer with
    | ok u => exact absurd hfresh (hanswer rfl)
    | error fault => exact .inl ⟨fault, hmake⟩

/-- To where nothing stands, the copy of a directory is refused, or it begins with an empty one. -/
theorem copyDirectory_cases (listing : Listing) (depth : Nat) (l : Location) (source : Path)
    (hd : d.WellFormed) (hreach : d.Reaches q m there) (hx : IsFileName x)
    (hp : trimSlashes target = Path.append q x) (hfresh : d.get? (there ++ [x]) = none) :
    (∃ failure, copyDirectory listing (depth + 1) l source target d = (.error failure, d)) ∨
    ∃ e, Opened d e target m (there ++ [x]) ∧ copyDirectory listing (depth + 1) l source target d =
      copyEach (copyEntry listing depth l source target) (listing e l) e := by
  unfold copyDirectory
  rcases makeDirectories_cases hd hreach hx hp hfresh with ⟨fault, hmake⟩ | ⟨e, hopened, hmake⟩
  · exact .inl ⟨.io target fault, by rw [hmake]⟩
  · exact .inr ⟨e, hopened, by rw [hmake]; rfl⟩

theorem copyDirectory_spec (hlist : listing.Complete) (depth : Nat) (hd : d.WellFormed)
    (hsource : d.Reaches source n l) (hreach : d.Reaches q m there) (hx : IsFileName x)
    (hp : trimSlashes target = Path.append q x) (hfresh : d.get? (there ++ [x]) = none) :
    CopyMade d l (there ++ [x]) (copyDirectory listing depth l source target d) ∧
      ((copyDirectory listing depth l source target d).2.get? (there ++ [x]) ≠ none →
        Allowed target) := by
  induction depth generalizing d l source target q there x with
  | zero => exact ⟨.refused hd _ _ _, fun h => absurd hfresh h⟩
  | succ depth ih =>
    rcases copyDirectory_cases listing depth l source hd hreach hx hp hfresh with
      ⟨failure, hcopy⟩ | ⟨e, hopened, hcopy⟩
    · rw [hcopy]
      exact ⟨.refused hd _ _ _, fun h => absurd hfresh h⟩
    · rw [hcopy]
      have hsize := hopened.size hfresh
      obtain ⟨-, ha, hadds, htarget, hempty⟩ := hopened
      generalize there ++ [x] = t at *
      have hsource' := hsource.mono (.of_le hadds.le)
      have hdir := htarget.directory hadds.wf
      have hentry : ∀ y ∈ listing e l, ∀ f : Disk, f.WellFormed → e ≤ f → f.get? (t ++ [y]) = none →
          CopyMade f (l ++ [y]) (t ++ [y]) (copyEntry listing depth l source target y f) := by
        intro y hy f hf hef hnone
        have hname := isFileName_of_mem_names hadds.wf ((hlist e l).mem_iff.1 hy)
        have htarget' := htarget.mono (.of_le hef)
        have hsource'' := hsource'.mono (.of_le hef)
        exact copyEntry_made hf hsource'' htarget' hname hnone fun hsub =>
          (ih hf (hsource''.append hname hsub) htarget' hname
            (trimSlashes_append target hname.ne_nil hname.no_slash) hnone).1
      have hmade := copyEach_names (hlist e l) hadds.wf (hsource'.directory hadds.wf) hdir hempty hentry
      exact ⟨⟨hadds.trans hmade.adds, fun count hok =>
        (hmade.copied count hok).of_le hadds.le hsize⟩, fun _ => ha⟩

theorem trimSlashes_append_nil (p : Path) : trimSlashes (Path.append p []) = trimSlashes p := by
  unfold Path.append
  split
  · rename_i h
    have hp : p = [] := by simpa [Path.isAbsolute] using h
    rw [hp]
  · split
    · simp
    · rw [trimSlashes_concat, if_pos rfl]

/-- What comes of a copy from the path `source` to the path `p` at `t`, where nothing stands. -/
structure CopyOutcome (d : Disk) (source p : Path) (t : Location)
    (outcome : Except Failure Nat × Disk) : Prop where
  adds : Adds (Under t) d outcome.2
  allowed : outcome.2.get? t ≠ none → Allowed p
  copied : ∀ count, outcome.1 = .ok count → ∃ l node, d.find source = .ok (l, node) ∧
    (∀ target, node ≠ .link target) ∧ Copied d l outcome.2 t count

theorem CopyOutcome.refused (hd : d.WellFormed) (hfresh : d.get? t = none) (failure : Failure) :
    CopyOutcome d source p t (.error failure, d) :=
  ⟨.refl hd, fun h => absurd hfresh h, fun _ hok => by cases hok⟩

theorem copyContent_spec (source : Path) (hd : d.WellFormed) (hreach : d.Reaches q m there)
    (hx : IsFileName x) (hfresh : d.get? (there ++ [x]) = none) :
    CopyOutcome d source (Path.append q x) (there ++ [x])
      (d.copyContent source (Path.append q x)) := by
  rcases copyContent_cases source hreach hx hfresh with
    ⟨failure, h⟩ | ⟨l, content, hfind, ha, h⟩
  · rw [h]
    exact .refused hd hfresh failure
  · have hl := (find_eq_ok_iff.1 hfind).2
    have hfile : d.followed l = some (.file content) := by rw [followed_of_ne (by simp [hl]), hl]
    have hmade := copyMade_file hd (hreach.directory hd) hx hfresh hfile (by simp [hl])
    rw [h]
    exact ⟨hmade.adds, fun _ => ha, fun count hok => ⟨l, _, hfind, by simp, hmade.copied count hok⟩⟩

theorem copyListed_spec (hlist : listing.Complete) (source : Path) (hd : d.WellFormed)
    (hreach : d.Reaches q m there) (hx : IsFileName x) (hfresh : d.get? (there ++ [x]) = none) :
    CopyOutcome d source (Path.append q x) (there ++ [x])
      (d.copyListed listing source (Path.append q x)) := by
  unfold copyListed
  cases hfind : d.find source with
  | error fault => exact .refused hd hfresh _
  | ok entry =>
    obtain ⟨l, node⟩ := entry
    cases node with
    | file content => exact copyContent_spec source hd hreach hx hfresh
    | link target => exact copyContent_spec source hd hreach hx hfresh
    | directory =>
      dsimp only
      split
      · exact .refused hd hfresh _
      · obtain ⟨n, hsource⟩ := reaches_of_find hfind
        have hslash : trimSlashes (Path.append (Path.append q x) []) = Path.append q x := by
          rw [trimSlashes_append_nil, trimSlashes_append q hx.ne_nil hx.no_slash]
        obtain ⟨hmade, ha⟩ := copyDirectory_spec hlist maxPath hd hsource hreach hx hslash hfresh
        have ha' : _ → Allowed (Path.append q x) := fun h =>
          allowed_of_prefix (Path.append_ne_nil q hx.ne_nil hx.no_slash)
            (Path.prefix_append _ (by simp)) (ha h)
        exact ⟨hmade.adds, ha', fun count hok =>
          ⟨l, .directory, hfind, by simp, hmade.copied count hok⟩⟩

theorem copy_spec (source : Path) (hd : d.WellFormed) (hreach : d.Reaches q m there)
    (hx : IsFileName x) (hfresh : d.get? (there ++ [x]) = none) :
    CopyOutcome d source (Path.append q x) (there ++ [x]) (d.copy source (Path.append q x)) :=
  copyListed_spec complete_names source hd hreach hx hfresh

/-! ### Copies of what a disk does not change -/

/-- No link of `d` leads along anything below `zone`. -/
def LinksAvoid (d : Disk) (zone : Location) : Prop :=
  ∀ k target, d.get? k = some (.link target) → ∀ v ∈ d.visits maxLinks [] k, isBelow zone v = false

theorem linksAvoid_iff : d.LinksAvoid zone ↔ ∀ entry ∈ d.entries, entry.2.isLink = true →
    ∀ v ∈ d.visits maxLinks [] entry.1, isBelow zone v = false := by
  constructor
  · rintro h ⟨k, node⟩ hmem hlink
    obtain ⟨target, rfl⟩ := Node.isLink_iff.1 hlink
    exact h k target (get?_of_mem hmem)
  · exact fun h k target hk => h _ (mem_entries_of_link hk) rfl

instance (d : Disk) (zone : Location) : Decidable (d.LinksAvoid zone) :=
  decidable_of_iff _ linksAvoid_iff.symm

theorem followed_congr (havoid : d.LinksAvoid zone)
    (hsame : ∀ k, isBelow zone k = false → e.get? k = d.get? k) (hk : isBelow zone k = false) :
    e.followed k = d.followed k := by
  unfold followed
  rw [hsame k hk]
  split
  · rename_i target hlink
    have hv := havoid k target hlink
    rw [← walk_congr fun v h => (hsame v (hv v h)).symm]
    split
    · rename_i j hwalk
      exact hsame j (not_isBelow_of_walk hv (by simp) hwalk)
    · rfl
  · rfl

/-- A copy made within a zone of what is apart from it is the original, with the content of what
links lead to. -/
theorem Copied.get?_eq {count : Nat} {d₀ : Disk} (h : Copied d l e t count)
    (havoid : d₀.LinksAvoid zone) (hapart : ∀ r, isBelow zone (l ++ r) = false)
    (hd : ∀ k, isBelow zone k = false → d.get? k = d₀.get? k)
    (he : ∀ k, isBelow zone k = false → e.get? k = d₀.get? k) (r : Location) :
    e.get? (t ++ r) = d₀.followed (l ++ r) := by
  obtain ⟨f, hdf, hfe, heq⟩ := h.mirror r
  rw [heq]
  refine followed_congr havoid (fun k hk => ?_) (hapart r)
  cases hdk : d.get? k with
  | some node => rw [hdf k node hdk, ← hd k hk, hdk]
  | none =>
    cases hfk : f.get? k with
    | none => rw [← hd k hk, hdk]
    | some node => rw [← he k hk, hfe k node hfk]

/-! ### Digests -/

theorem isLink_of_le (hde : d ≤ e) (hd : d.WellFormed) (hfind : d.find p = .ok (l, node)) :
    e.isLink p = d.isLink p := by
  obtain ⟨hloc, hl⟩ := find_eq_ok_iff.1 hfind
  have ha := allowed_of_locate hloc
  rw [locate_of_allowed ha] at hloc
  obtain ⟨k, other, hkeep, hk⟩ := walk_keep_of_follow hd (by simp) hloc hl
  rw [← locate_of_allowed ha] at hkeep
  rw [isLink, isLink, hkeep, locate_of_le hde hkeep hk]
  simp only [hk, hde _ _ hk]

theorem treeBytes_of_le (hde : d ≤ e) {entries : List Entry} {bytes : Bytes}
    (h : d.treeBytes p entries = .ok bytes) : e.treeBytes p entries = .ok bytes := by
  induction entries generalizing bytes with
  | nil => exact h
  | cons entry rest ih =>
    obtain ⟨path, node⟩ := entry
    have hread : ∀ {node : Node}, node ≠ .directory →
        d.treeBytes p ((path, node) :: rest) = .ok bytes →
        e.treeBytes p ((path, node) :: rest) = .ok bytes := fun {node} hnode h => by
      rw [treeBytes] at h ⊢
      · cases hfile : d.readBytes (Path.append p path) with
        | error fault => simp [hfile] at h
        | ok content =>
          rw [hfile] at h
          rw [readBytes_of_le hde hfile]
          cases hrest : d.treeBytes p rest with
          | error failure => simp [hrest, bind, Except.bind] at h
          | ok tail =>
            rw [hrest] at h
            simp only [ih hrest]
            exact h
      · exact hnode
      · exact hnode
    cases node with
    | directory => exact ih h
    | file content => exact hread (by simp) h
    | link target => exact hread (by simp) h

theorem treeBelow_congr (h : ∀ k, isBelow l k = true → e.get? k = d.get? k) :
    e.treeBelow l = d.treeBelow l := by
  have hkeep : e.keep (isBelow l) = d.keep (isBelow l) := by
    refine ext_get? fun k => ?_
    simp only [get?_keep]
    by_cases hk : isBelow l k = true
    · simp [hk, h k hk]
    · by_cases hnil : k = []
      · simp [hnil]
      · simp [hk, hnil]
  have hbelow : e.below l = d.below l := congrArg entries hkeep
  rw [treeBelow, treeBelow, hbelow]

/-- The digest of a path stays the same while nothing changes at or below where it leads. -/
theorem digest_of_le (hde : d ≤ e) (hd : d.WellFormed) (hfind : d.find p = .ok (l, node))
    (hsame : ∀ k, l <+: k → e.get? k = d.get? k) {digest : Text} (h : d.digest p = .ok digest) :
    e.digest p = .ok digest := by
  have hbytes : ∀ bytes, d.digestBytes p = .ok bytes → e.digestBytes p = .ok bytes := by
    intro bytes hb
    rw [digestBytes, hfind] at hb
    rw [digestBytes, find_of_le hde hfind]
    cases node with
    | file content => exact hb
    | link target => exact hb
    | directory =>
      dsimp only at hb ⊢
      rw [isLink_of_le hde hd hfind]
      split at hb
      · cases hb
      · rename_i hlink
        rw [if_neg hlink, treeBelow_congr fun k hk => hsame k ?_]
        · exact treeBytes_of_le hde hb
        · obtain ⟨x, r, rfl⟩ := isBelow_iff.1 hk
          exact List.prefix_append ..
  unfold Disk.digest at h ⊢
  cases hb : d.digestBytes p with
  | error failure => rw [hb] at h; cases h
  | ok bytes => rwa [hbytes bytes hb, ← hb]

end Disk

end ModulePack
