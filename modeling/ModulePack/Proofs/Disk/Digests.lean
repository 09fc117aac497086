import Mathlib.Data.List.Sort
import ModulePack.Proofs.Disk.Copying

/-!
# What the digest of a tree identifies

`files d l` lists the files of a tree in order, each with its content and its place from the root
of the tree; what a link leads to counts as standing there. A digest that succeeds covers those and
nothing else (`treeBytes_eq_ok_iff`), each path with a zero byte behind it and then the content. No
path has a zero character, so it shows where a path ends, but not where a content does. Two trees
may therefore differ and have the same digest (`digestBytes_blurred`). They have the same files if
the contents of each path that both have are of one length (`digestBytes_eq_iff`), and backslashes,
which are written as slashes, are left aside.
-/

namespace ModulePack.Disk

variable {d e : Disk} {l k : Location} {n : Nat} {x : Text} {r s : Location} {node : Node}
  {a b root : Path} {content bytes bytes' : Bytes}

/-- The tree at `l` has a file with this content at `r`, be it behind a link. -/
def HasFile (d : Disk) (l r : Location) (content : Bytes) : Prop :=
  d.followed (l ++ r) = some (.file content)

instance (d : Disk) (l r : Location) (content : Bytes) : Decidable (d.HasFile l r content) :=
  inferInstanceAs (Decidable (_ = _))

theorem HasFile.exists_node (h : d.HasFile l r content) :
    ∃ node, d.get? (l ++ r) = some node ∧ node ≠ .directory := by
  cases hnode : d.get? (l ++ r) with
  | none =>
    rw [HasFile, followed_of_ne (by simp [hnode]), hnode] at h
    cases h
  | some node =>
    refine ⟨node, rfl, ?_⟩
    rintro rfl
    rw [HasFile, followed_of_ne (by simp [hnode]), hnode] at h
    cases h

theorem HasFile.name (h : d.HasFile l r content) (hd : d.WellFormed) : ∀ x ∈ r, IsFileName x := by
  obtain ⟨node, hnode, -⟩ := h.exists_node
  exact fun x hx => hd.name hnode x (by simp [hx])

theorem HasFile.ne_nil (h : d.HasFile l r content) (hl : d.get? l = some .directory) : r ≠ [] := by
  rintro rfl
  obtain ⟨node, hnode, hne⟩ := h.exists_node
  rw [List.append_nil, hl] at hnode
  exact hne (Option.some.inj hnode).symm

/-! ### The files of a tree -/

/-- The file at a location, if there is one: where it is from `l`, and its content. -/
def fileFrom? (d : Disk) (l k : Location) : Option (Location × Bytes) :=
  match d.followed k with
  | some (.file content) => some (k.drop l.length, content)
  | _ => none

/-- The files of the tree at a location, in order. -/
def files (d : Disk) (l : Location) : List (Location × Bytes) :=
  (d.below l).filterMap fun entry => d.fileFrom? l entry.1

theorem fileFrom?_append {file : Location × Bytes} :
    d.fileFrom? l (l ++ r) = some file ↔ file.1 = r ∧ d.HasFile l r file.2 := by
  obtain ⟨s, content⟩ := file
  unfold fileFrom? HasFile
  rw [List.drop_left]
  split
  · rename_i content' h
    simp [h, eq_comm]
  · rename_i h
    simpa using fun _ => h content

theorem fileFrom?_directory (h : d.get? (l ++ r) = some .directory) :
    d.fileFrom? l (l ++ r) = none := by
  refine Option.eq_none_iff_forall_ne_some.2 fun file hfile => ?_
  obtain ⟨node, hnode, hne⟩ := (fileFrom?_append.1 hfile).2.exists_node
  rw [h] at hnode
  exact hne (Option.some.inj hnode).symm

theorem mem_below : (k, node) ∈ d.below l ↔ isBelow l k = true ∧ d.get? k = some node := by
  rw [below, List.mem_filter, and_comm]
  refine and_congr_right fun hk => ?_
  obtain ⟨x, r, rfl⟩ := isBelow_iff.1 hk
  exact (get?_eq_some_iff (by simp)).symm

theorem mem_files : (r, content) ∈ d.files l ↔ r ≠ [] ∧ d.HasFile l r content := by
  rw [files, List.mem_filterMap]
  constructor
  · rintro ⟨⟨k, node⟩, hmem, hsome⟩
    obtain ⟨x, s, rfl⟩ := isBelow_iff.1 (mem_below.1 hmem).1
    obtain ⟨rfl, hfile⟩ := fileFrom?_append.1 hsome
    exact ⟨by simp, hfile⟩
  · rintro ⟨hr, hfile⟩
    obtain ⟨x, s, rfl⟩ := List.exists_cons_of_ne_nil hr
    obtain ⟨node, hnode, -⟩ := hfile.exists_node
    exact ⟨(l ++ x :: s, node), mem_below.2 ⟨isBelow_append_cons s, hnode⟩,
      fileFrom?_append.2 ⟨rfl, hfile⟩⟩

theorem lt_of_append_lt (h : l ++ r < l ++ s) : r < s := by
  rcases Std.lt_trichotomy r s with hlt | rfl | hgt
  · exact hlt
  · exact absurd h (List.lt_irrefl _)
  · exact absurd (List.lt_trans h (List.append_left_lt hgt)) (List.lt_irrefl _)

theorem pairwise_files (d : Disk) (l : Location) : (d.files l).Pairwise fun f g => f.1 < g.1 := by
  have hbelow : (d.below l).Pairwise fun f g => f.1 < g.1 :=
    (List.pairwise_map.1 (List.pairwise_cons.1 d.sorted).2).sublist List.filter_sublist
  rw [files, List.pairwise_filterMap]
  refine hbelow.imp_of_mem ?_
  rintro ⟨k, node⟩ ⟨k', node'⟩ hk hk' hlt f hf f' hf'
  obtain ⟨x, r, rfl⟩ := isBelow_iff.1 (mem_below.1 hk).1
  obtain ⟨y, s, rfl⟩ := isBelow_iff.1 (mem_below.1 hk').1
  rw [(fileFrom?_append.1 hf).1, (fileFrom?_append.1 hf').1]
  exact lt_of_append_lt hlt

/-- Trees with the same files list them in the same way. -/
theorem files_congr (h : ∀ r content, d.HasFile l r content ↔ e.HasFile k r content) :
    d.files l = e.files k := by
  have hirrefl : Std.Irrefl fun f g : Location × Bytes => f.1 < g.1 := ⟨fun f => List.lt_irrefl f.1⟩
  have hantisymm : Std.Antisymm fun f g : Location × Bytes => f.1 < g.1 :=
    ⟨fun f g hlt hgt => absurd (List.lt_trans hlt hgt) (List.lt_irrefl _)⟩
  refine (pairwise_files d l).eq_of_mem_iff (pairwise_files e k) fun (r, content) => ?_
  rw [mem_files, mem_files, h]

theorem mem_files_of_directory (hl : d.get? l = some .directory) :
    (r, content) ∈ d.files l ↔ d.HasFile l r content :=
  mem_files.trans (and_iff_right_of_imp fun h => h.ne_nil hl)

theorem files_eq_iff (hl : d.get? l = some .directory) (hk : e.get? k = some .directory) :
    d.files l = e.files k ↔ ∀ r content, d.HasFile l r content ↔ e.HasFile k r content := by
  refine ⟨fun heq r content => ?_, files_congr⟩
  rw [← mem_files_of_directory hl, heq, mem_files_of_directory hk]

/-! ### What is covered -/

/-- What a digest covers of one file. -/
def fileBytes (file : Location × Bytes) : Bytes :=
  Bytes.ofText (Path.forwardSlashes (Text.join ['/'] file.1)) ++ 0 :: file.2

/-- Whatever is in the tree at `l` can be read behind the path `root`, but for directories. -/
def Readable (d : Disk) (root : Path) (l : Location) : Prop :=
  ∀ r node, r ≠ [] → d.get? (l ++ r) = some node → node ≠ .directory →
    ∃ content, d.readBytes (Path.append root (Text.join ['/'] r)) = .ok content

theorem Reaches.foldl_append (h : d.Reaches root n l) (hd : d.WellFormed)
    (hr : d.get? (l ++ r) = some .directory) : d.Reaches (r.foldl Path.append root) n (l ++ r) := by
  induction r using List.reverseRecOn with
  | nil => simpa using h
  | append_singleton r x ih =>
    rw [← List.append_assoc] at hr ⊢
    rw [List.foldl_append]
    exact (ih (hd.parent hr)).append (hd.isFileName hr) hr

/-- What is read behind the path of a tree is what stands there, or what a link there leads to. -/
theorem hasFile_of_readBytes (hroot : d.Reaches root n l) (hd : d.WellFormed) (hr : r ≠ [])
    (hnode : d.get? (l ++ r) = some node)
    (hread : d.readBytes (r.foldl Path.append root) = .ok content) : d.HasFile l r content := by
  obtain ⟨r, x, rfl⟩ := (List.eq_nil_or_concat' r).resolve_left hr
  rw [← List.append_assoc] at hnode
  rw [List.foldl_append] at hread
  obtain ⟨k, hfind⟩ := readBytes_eq_ok_iff.1 hread
  have hdir := hroot.foldl_append hd (hd.parent hnode)
  rw [HasFile, ← List.append_assoc]
  exact followed_of_find hd hdir (hd.isFileName hnode) hfind

theorem foldl_append_location (hd : d.WellFormed) (hr : r ≠ []) (hnode : d.get? (l ++ r) = some node)
    (root : Path) : r.foldl Path.append root = Path.append root (Text.join ['/'] r) := by
  refine Path.foldl_append_names root (fun x hx => ?_) hr
  have hname := hd.name hnode x (by simp [hx])
  exact ⟨hname.ne_nil, hname.no_slash⟩

theorem fileFrom?_of_readBytes (hroot : d.Reaches root n l) (hd : d.WellFormed) (hr : r ≠ [])
    (hnode : d.get? (l ++ r) = some node)
    (hread : d.readBytes (Path.append root (Text.join ['/'] r)) = .ok content) :
    d.fileFrom? l (l ++ r) = some (r, content) := by
  rw [← foldl_append_location hd hr hnode] at hread
  exact fileFrom?_append.2 ⟨rfl, hasFile_of_readBytes hroot hd hr hnode hread⟩

theorem treeBytes_cons_eq_ok_iff {p : Path} {rest : List Entry} (hnode : node ≠ .directory) :
    d.treeBytes root ((p, node) :: rest) = .ok bytes ↔
      ∃ content tail, d.readBytes (Path.append root p) = .ok content ∧
        d.treeBytes root rest = .ok tail ∧
        bytes = Bytes.ofText (Path.forwardSlashes p) ++ 0 :: content ++ tail := by
  rw [treeBytes]
  · cases hread : d.readBytes (Path.append root p) with
    | error fault => simp
    | ok content =>
      cases hrest : d.treeBytes root rest with
      | error failure => simp [bind, Except.bind]
      | ok tail => simp [bind, Except.bind, eq_comm]
  · exact hnode

/-- `Readable` for some of the entries of a tree, and what is covered of those. -/
theorem treeBytes_map_eq_ok_iff (hroot : d.Reaches root n l) (hd : d.WellFormed)
    {entries : List (Location × Node)} (hentries : ∀ entry ∈ entries, entry ∈ d.below l) :
    d.treeBytes root (entries.map fun (k, node) => (Text.join ['/'] (k.drop l.length), node)) =
        .ok bytes ↔
      (∀ r node, (l ++ r, node) ∈ entries → node ≠ .directory →
        ∃ content, d.readBytes (Path.append root (Text.join ['/'] r)) = .ok content) ∧
      bytes = (entries.filterMap fun entry => d.fileFrom? l entry.1).flatMap fileBytes := by
  induction entries generalizing bytes with
  | nil => simp [treeBytes, eq_comm]
  | cons entry entries ih =>
    obtain ⟨k, node⟩ := entry
    obtain ⟨hbelow, hnode⟩ := mem_below.1 (hentries (k, node) (by simp))
    obtain ⟨x, s, rfl⟩ := isBelow_iff.1 hbelow
    replace ih := fun bytes => @ih bytes fun entry hentry => hentries entry (by simp [hentry])
    simp only [List.map_cons, List.drop_left]
    by_cases hdir : node = .directory
    · have hfile : d.fileFrom? l (l ++ x :: s) = none := fileFrom?_directory (hdir ▸ hnode)
      simp only [hdir, treeBytes, ih, List.filterMap_cons, hfile]
      refine and_congr_left fun _ => ⟨fun hall r node hmem hne => ?_, fun hall r node hmem => ?_⟩
      · rcases List.mem_cons.1 hmem with heq | hmem
        · exact absurd (Prod.mk.inj heq).2 hne
        · exact hall r node hmem hne
      · exact hall r node (List.mem_cons_of_mem _ hmem)
    · have hfile : ∀ content, d.readBytes (Path.append root (Text.join ['/'] (x :: s))) = .ok content →
          d.fileFrom? l (l ++ x :: s) = some (x :: s, content) := fun content hread =>
        fileFrom?_of_readBytes hroot hd (by simp) hnode hread
      rw [treeBytes_cons_eq_ok_iff hdir]
      constructor
      · rintro ⟨content, tail, hread, htail, rfl⟩
        obtain ⟨hall, rfl⟩ := (ih tail).1 htail
        refine ⟨fun r node hmem hne => ?_, ?_⟩
        · rcases List.mem_cons.1 hmem with heq | hmem
          · obtain rfl : r = x :: s := List.append_cancel_left (Prod.mk.inj heq).1
            exact ⟨content, hread⟩
          · exact hall r node hmem hne
        · simp only [List.filterMap_cons, hfile content hread, List.flatMap_cons, fileBytes]
      · rintro ⟨hall, rfl⟩
        obtain ⟨content, hread⟩ := hall (x :: s) node (by simp) hdir
        refine ⟨content, _, hread, (ih _).2 ⟨fun r node hmem => ?_, rfl⟩, ?_⟩
        · exact hall r node (List.mem_cons_of_mem _ hmem)
        · simp only [List.filterMap_cons, hfile content hread, List.flatMap_cons, fileBytes]

/-- The digest of a tree succeeds if all in it can be read, and covers its files in order. -/
theorem treeBytes_eq_ok_iff (hroot : d.Reaches root n l) (hd : d.WellFormed) :
    d.treeBytes root (d.treeBelow l) = .ok bytes ↔
      d.Readable root l ∧ bytes = (d.files l).flatMap fileBytes := by
  rw [treeBelow, treeBytes_map_eq_ok_iff hroot hd fun entry h => h, files]
  refine and_congr_left fun _ => ⟨fun hall r node hr hnode => ?_, fun hall r node hmem => ?_⟩
  · obtain ⟨x, s, rfl⟩ := List.exists_cons_of_ne_nil hr
    exact hall _ node (mem_below.2 ⟨isBelow_append_cons s, hnode⟩)
  · obtain ⟨hbelow, hnode⟩ := mem_below.1 hmem
    refine hall r node (fun hnil => ?_) hnode
    simp [hnil] at hbelow

theorem digestBytes_eq_ok_iff (hd : d.WellFormed) (hfind : d.find root = .ok (l, .directory)) :
    d.digestBytes root = .ok bytes ↔
      d.isLink root = false ∧ d.Readable root l ∧ bytes = (d.files l).flatMap fileBytes := by
  obtain ⟨n, hroot⟩ := reaches_of_find hfind
  rw [digestBytes, hfind]
  dsimp only
  cases d.isLink root with
  | true => simp
  | false => simp [treeBytes_eq_ok_iff hroot hd]

/-! ### What is identified -/

/-- A path that is covered as it is. -/
def IsPlain (r : Location) : Prop := ∀ x ∈ r, IsFileName x ∧ '\\' ∉ x

theorem IsPlain.not_mem_join {c : Char} (h : IsPlain r) (hc : c = '\x00' ∨ c = '\\') :
    c ∉ Text.join ['/'] r := by
  intro hmem
  rcases Text.mem_join hmem with hslash | ⟨x, hx, hcx⟩
  · obtain rfl := List.mem_singleton.1 hslash
    revert hc
    decide
  · rcases hc with rfl | rfl
    · exact (h x hx).1.no_nul hcx
    · exact (h x hx).2 hcx

theorem IsPlain.names_join (h : IsPlain r) : Path.names (Text.join ['/'] r) = r :=
  Path.names_join fun x hx => ⟨(h x hx).1.ne_nil, (h x hx).1.no_slash⟩

/-- A zero byte ends a path. So the first path of what is covered is determined, and its content if
the length of that is known. -/
theorem fileBytes_append_inj {f g : Location × Bytes} {t t' : Bytes} (hf : IsPlain f.1)
    (hg : IsPlain g.1) (hlength : f.1 = g.1 → f.2.length = g.2.length)
    (h : fileBytes f ++ t = fileBytes g ++ t') : f = g ∧ t = t' := by
  simp only [fileBytes, List.append_assoc, List.cons_append,
    Path.forwardSlashes_of_not_mem (hf.not_mem_join (.inr rfl)),
    Path.forwardSlashes_of_not_mem (hg.not_mem_join (.inr rfl))] at h
  obtain ⟨hpath, hrest⟩ := Text.append_cons_inj
    (Bytes.zero_not_mem_ofText (hf.not_mem_join (.inl rfl)))
    (Bytes.zero_not_mem_ofText (hg.not_mem_join (.inl rfl))) h
  have hplace : f.1 = g.1 := by
    rw [← hf.names_join, Bytes.ofText_injective hpath, hg.names_join]
  obtain ⟨hcontent, htail⟩ := List.append_inj hrest (hlength hplace)
  exact ⟨Prod.ext hplace hcontent, htail⟩

/-- The files of a tree are determined by what is covered of them, and by their lengths. -/
theorem files_eq_of_bytes (hd : d.WellFormed) (he : e.WellFormed)
    (hplain : ∀ r content, d.HasFile l r content → ∀ x ∈ r, '\\' ∉ x)
    (hplain' : ∀ r content, e.HasFile k r content → ∀ x ∈ r, '\\' ∉ x)
    (hlength : ∀ r content content', d.HasFile l r content → e.HasFile k r content' →
      content.length = content'.length)
    (h : (d.files l).flatMap fileBytes = (e.files k).flatMap fileBytes) :
    d.files l = e.files k := by
  refine Text.flatMap_inj (fun file => by simp [fileBytes]) ?_ h
  rintro ⟨r, c⟩ hf ⟨s, c'⟩ hg t t' h
  obtain ⟨-, hf⟩ := mem_files.1 hf
  obtain ⟨-, hg⟩ := mem_files.1 hg
  refine fileBytes_append_inj (fun x hx => ⟨hf.name hd x hx, hplain _ _ hf x hx⟩)
    (fun x hx => ⟨hg.name he x hx, hplain' _ _ hg x hx⟩) (fun hrs => ?_) h
  obtain rfl : r = s := hrs
  exact hlength r c c' hf hg

/-- Two directories whose paths have no backslashes contain the same files with the same contents
just when their digests cover the same bytes and no path has contents of different lengths. -/
theorem digestBytes_eq_iff (hd : d.WellFormed) (he : e.WellFormed)
    (ha : d.find a = .ok (l, .directory)) (hb : e.find b = .ok (k, .directory))
    (hbytes : d.digestBytes a = .ok bytes) (hbytes' : e.digestBytes b = .ok bytes')
    (hplain : ∀ r content, d.HasFile l r content → ∀ x ∈ r, '\\' ∉ x)
    (hplain' : ∀ r content, e.HasFile k r content → ∀ x ∈ r, '\\' ∉ x) :
    (bytes = bytes' ∧ ∀ r content content', d.HasFile l r content → e.HasFile k r content' →
      content.length = content'.length) ↔
    ∀ r content, d.HasFile l r content ↔ e.HasFile k r content := by
  obtain ⟨-, -, rfl⟩ := (digestBytes_eq_ok_iff hd ha).1 hbytes
  obtain ⟨-, -, rfl⟩ := (digestBytes_eq_ok_iff he hb).1 hbytes'
  have hfiles := files_eq_iff (find_eq_ok_iff.1 ha).2 (find_eq_ok_iff.1 hb).2
  constructor
  · rintro ⟨hsame, hlength⟩
    exact hfiles.1 (files_eq_of_bytes hd he hplain hplain' hlength hsame)
  · intro hsame
    refine ⟨by rw [hfiles.2 hsame], fun r content content' hc hc' => ?_⟩
    have heq := (hsame r content).1 hc
    rw [HasFile, show e.followed (k ++ r) = _ from hc'] at heq
    cases heq
    rfl

/-- Two directories, one of them with a link for a second copy of a file. -/
def linkedCopy : Disk :=
  ⟨[([['a']], .directory),
    ([['a'], ['x']], .file (Bytes.ofText ['1'])),
    ([['a'], ['y']], .link ['x']),
    ([['b']], .directory),
    ([['b'], ['x']], .file (Bytes.ofText ['1'])),
    ([['b'], ['y']], .file (Bytes.ofText ['1']))], by decide⟩

theorem digestBytes_eq_iff_linkedCopy : ∃ bytes,
    linkedCopy.digestBytes ['/', 'a'] = .ok bytes ∧ linkedCopy.digestBytes ['/', 'b'] = .ok bytes ∧
      ∀ r content, linkedCopy.HasFile [['a']] r content ↔ linkedCopy.HasFile [['b']] r content := by
  have hwf : linkedCopy.WellFormed := by decide +kernel
  have ha : linkedCopy.find ['/', 'a'] = .ok ([['a']], .directory) := by decide +kernel
  have hb : linkedCopy.find ['/', 'b'] = .ok ([['b']], .directory) := by decide +kernel
  have hbytes : linkedCopy.digestBytes ['/', 'a'] = .ok (Bytes.ofText "x\x001y\x001".toList) := by
    decide +kernel
  have hbytes' : linkedCopy.digestBytes ['/', 'b'] = .ok (Bytes.ofText "x\x001y\x001".toList) := by
    decide +kernel
  have hfiles : ∀ l ∈ [[['a']], [['b']]], ∀ file ∈ linkedCopy.files l,
      (∀ x ∈ file.1, '\\' ∉ x) ∧ file.2.length = 1 := by decide +kernel
  have key : ∀ l ∈ [[['a']], [['b']]], linkedCopy.get? l = some .directory →
      ∀ r content, linkedCopy.HasFile l r content → (∀ x ∈ r, '\\' ∉ x) ∧ content.length = 1 :=
    fun l hl hdir r content h => hfiles l hl (r, content) ((mem_files_of_directory hdir).2 h)
  have hleft := key _ (by simp) (find_eq_ok_iff.1 ha).2
  have hright := key _ (by simp) (find_eq_ok_iff.1 hb).2
  refine ⟨_, hbytes, hbytes', (digestBytes_eq_iff hwf hwf ha hb hbytes hbytes'
    (fun r c h => (hleft r c h).1) (fun r c h => (hright r c h).1)).1 ⟨rfl, fun r c c' h h' => ?_⟩⟩
  rw [(hleft r c h).2, (hright r c' h').2]

/-- Two directories: one has an empty file `a` and a file `bc`, the other `a` and `c`. -/
def blurred : Disk :=
  ⟨[([['a']], .directory),
    ([['a'], ['a']], .file []),
    ([['a'], ['b', 'c']], .file (Bytes.ofText ['2'])),
    ([['b']], .directory),
    ([['b'], ['a']], .file (Bytes.ofText ['b'])),
    ([['b'], ['c']], .file (Bytes.ofText ['2']))], by decide⟩

/-- Without the lengths the files are not determined. -/
theorem digestBytes_blurred : blurred.WellFormed ∧
    blurred.find ['/', 'a'] = .ok ([['a']], .directory) ∧
    blurred.find ['/', 'b'] = .ok ([['b']], .directory) ∧
    ∃ bytes, blurred.digestBytes ['/', 'a'] = .ok bytes ∧ blurred.digestBytes ['/', 'b'] = .ok bytes ∧
      ¬∀ r content, blurred.HasFile [['a']] r content ↔ blurred.HasFile [['b']] r content := by
  refine ⟨by decide +kernel, by decide +kernel, by decide +kernel,
    Bytes.ofText "a\x00bc\x002".toList, by decide +kernel, by decide +kernel, fun h => ?_⟩
  have hfile : blurred.HasFile [['a']] [['b', 'c']] (Bytes.ofText ['2']) := by decide +kernel
  have hnone : blurred.followed [['b'], ['b', 'c']] = none := by decide +kernel
  have hother := (h _ _).1 hfile
  rw [HasFile, List.singleton_append, hnone] at hother
  cases hother

end ModulePack.Disk
