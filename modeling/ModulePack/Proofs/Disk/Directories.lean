import ModulePack.Proofs.Disk.Locate
import ModulePack.Proofs.Path.Normal

/-!
# Making directories

`Adds new d e`: the disk `e` is `d` with further entries. `makeDirectories` adds nothing but
directories (`makeDirectories_made`). When it succeeds for a normal path, the path leads to a
directory, which is empty unless the disk is as before (`makeDirectories_ok`). Whether it succeeds
or not, what it makes for a normal path was `Missing` on the way (`makeDirectories_missing`): the
names lead to a directory, nothing stands under the next of them, and the rest is one below the
other. In a directory that is there, it makes at most one (`makeDirectories_of_reaches`).
-/

namespace ModulePack.Disk

variable {d e f : Disk} {l k here there : Location} {x : Text} {xs : List Text} {n m : Nat}
  {ending : Ending} {node : Node} {p q : Path}

/-- `e` is `d` with further entries, each of them as `new` says. -/
structure Adds (new : Location → Node → Prop) (d e : Disk) : Prop where
  wf : e.WellFormed
  le : d ≤ e
  new : ∀ k node, e.get? k = some node → d.get? k = none → new k node

namespace Adds

variable {new new' : Location → Node → Prop}

theorem refl (hd : d.WellFormed) : Adds new d d :=
  ⟨hd, le_refl d, fun _ _ hsome hnone => by rw [hnone] at hsome; cases hsome⟩

theorem mono (h : Adds new d e) (hnew : ∀ k node, new k node → new' k node) : Adds new' d e :=
  ⟨h.wf, h.le, fun k node hsome hnone => hnew k node (h.new k node hsome hnone)⟩

theorem trans (h : Adds new d e) (h' : Adds new e f) : Adds new d f := by
  refine ⟨h'.wf, le_trans h.le h'.le, fun k node hsome hnone => ?_⟩
  by_cases hk : e.get? k = none
  · exact h'.new k node hsome hk
  · obtain ⟨old, hold⟩ := Option.ne_none_iff_exists'.1 hk
    rw [h'.le _ _ hold] at hsome
    exact Option.some.inj hsome ▸ h.new k old hold hnone

/-- What has been added may be put anew. -/
theorem put_new (h : Adds new d e) (hdir : e.get? there = some .directory) (hx : IsFileName x)
    (hnone : d.get? (there ++ [x]) = none) (hold : e.get? (there ++ [x]) ≠ some .directory)
    (hnew : new (there ++ [x]) node) : Adds new d (e.put (there ++ [x]) node) := by
  refine ⟨h.wf.put hdir hx hold _, fun k other hk => ?_, fun k other hsome hk => ?_⟩
  · rw [get?_put, if_neg, h.le k other hk]
    rintro ⟨rfl, -⟩
    rw [hnone] at hk
    cases hk
  · rw [get?_put] at hsome
    split at hsome
    · rename_i heq
      rw [← heq.1, ← Option.some.inj hsome]
      exact hnew
    · exact h.new k other hsome hk

theorem put (hd : d.WellFormed) (hdir : d.get? there = some .directory) (hx : IsFileName x)
    (hnone : d.get? (there ++ [x]) = none) (hnew : new (there ++ [x]) node) :
    Adds new d (d.put (there ++ [x]) node) :=
  (refl hd).put_new hdir hx hnone (by simp [hnone]) hnew

theorem get?_eq (h : Adds new d e) (hk : ∀ node, ¬new k node) : e.get? k = d.get? k := by
  cases hd : d.get? k with
  | some node => exact h.le k node hd
  | none => exact Option.eq_none_iff_forall_ne_some.2 fun node he => hk node (h.new k node he hd)

end Adds

/-- Nothing but directories has been added. -/
abbrev Made : Disk → Disk → Prop := Adds fun _ node => node = .directory

/-! ### One directory -/

/-- A walk ends where no directory stands only by a last step to an entry. -/
theorem exists_concat_of_walk (hd : d.WellFormed) (hhere : d.get? here = some .directory)
    (hw : d.walk ending n here xs = .ok l) (hl : d.get? l ≠ some .directory) :
    ∃ ys x, xs = ys ++ [x] ∧ IsEntryStep x := by
  induction n, here, xs using walk_induct with
  | nil n here =>
    obtain rfl : here = l := by simpa using hw
    exact absurd hhere hl
  | stay n here step rest hstep ih =>
    rw [walk_stay hstep] at hw
    obtain ⟨ys, x, rfl, hx⟩ := ih hhere hw
    exact ⟨step :: ys, x, rfl, hx⟩
  | up n here rest ih =>
    rw [walk_up] at hw
    obtain ⟨ys, x, rfl, hx⟩ := ih (hd.dropLast hhere) hw
    exact ⟨_ :: ys, x, rfl, hx⟩
  | entry n here step rest hstep ih ihlink =>
    rcases List.eq_nil_or_concat' rest with rfl | ⟨rest, z, rfl⟩
    · exact ⟨[], step, rfl, hstep⟩
    refine ⟨step :: rest, z, rfl, ?_⟩
    obtain ⟨hshort, hend⟩ := short_of_walk hstep hw
    rw [walk_entry hstep hshort hend, walkEntry] at hw
    split at hw
    · simp at hw
    · rename_i target hlink
      simp only [List.append_eq_nil_iff, List.cons_ne_self, and_false, false_and, if_false] at hw
      cases n with
      | zero => cases hw
      | succ n =>
        obtain ⟨ys, x, heq, hx⟩ := ihlink n rfl _ _ (get?_linkBase hhere target) hw
        rw [← List.append_assoc] at heq
        obtain rfl : z = x := by simpa using (List.append_inj' heq rfl).2
        exact hx
    · rename_i hdir
      obtain ⟨ys, x, heq, hx⟩ := ih hdir hw
      obtain rfl : z = x := by simpa using (List.append_inj' heq rfl).2
      exact hx
    · simp at hw

theorem isFileName_of_mem_names_path (hp : Allowed p) (hmem : x ∈ Path.names p)
    (hx : IsEntryStep x) (hshort : x.byteCount ≤ maxName) : IsFileName x := by
  have hpiece := List.mem_of_mem_filter hmem
  refine ⟨⟨hx.ne_nil, ?_, hx.2, Path.not_mem_of_mem_pieces hpiece⟩,
    fun hnul => hp.no_nul (Path.mem_of_mem_pieces hpiece hnul), hshort⟩
  rintro rfl
  simp [IsEntryStep, isStay] at hx

/-- The location of a directory that names would lead to if it were there: the first of them that
leads nowhere is looked up in a directory, and those behind it one inside the other. -/
inductive Missing (d : Disk) : List Text → Location → Prop
  | first {xs : List Text} {m : Nat} {there : Location} {x : Text}
      (h : Passes d maxLinks [] xs m there) (hx : IsFileName x)
      (hnone : d.get? (there ++ [x]) = none) : Missing d (xs ++ [x]) (there ++ [x])
  | behind {xs : List Text} {k : Location} {x : Text} (h : Missing d xs k) (hx : Path.IsName x) :
      Missing d (xs ++ [x]) (k ++ [x])

theorem Missing.get?_eq_none (h : d.Missing xs k) (hd : d.WellFormed) : d.get? k = none := by
  induction h with
  | first _ _ hnone => exact hnone
  | behind _ _ ih => exact hd.get?_append_eq_none (by simp) (by simp [ih])

/-- A path that names an entry, where nothing stands, leads to a directory but for its last name. -/
theorem exists_entry_of_locate (hd : d.WellFormed) (hp : trimSlashes p ≠ [])
    (hloc : d.locate .keep (trimSlashes p) = .ok l) (hnone : d.get? l = none) :
    ∃ xs x m there, Path.names p = xs ++ [x] ∧ IsFileName x ∧ Passes d maxLinks [] xs m there ∧
      l = there ++ [x] := by
  have ha := allowed_of_locate hloc
  rw [locate_of_allowed ha, steps_trimSlashes hp] at hloc
  obtain ⟨xs, x, hnames, hx⟩ := exists_concat_of_walk hd (by simp) hloc (by simp [hnone])
  rw [hnames] at hloc
  obtain ⟨m, there, hpass, hlast⟩ := passes_of_walk_concat hx hloc
  have hname : IsFileName x := isFileName_of_mem_names_path ha
    (by rw [names_trimSlashes, hnames]; simp) hx (short_of_walk hx hlast).1
  rw [walk_keep_singleton hname] at hlast
  exact ⟨xs, x, m, there, hnames, hname, hpass, (Except.ok.inj hlast).symm⟩

/-- Slashes alone lead to the root, where a directory stands. -/
theorem trimSlashes_ne_nil_of_locate (h : d.locate .keep p = .ok l) (hnone : d.get? l = none) :
    trimSlashes p ≠ [] := by
  intro hnil
  have hnames : Path.names p = [] := by rw [← names_trimSlashes, hnil]; rfl
  rw [locate_of_allowed (allowed_of_locate h)] at h
  rcases steps_eq p with hsteps | hsteps
  · rw [hsteps, hnames, walk_nil] at h
    rw [← Except.ok.inj h, get?_nil] at hnone
    cases hnone
  · rw [hsteps, hnames, List.nil_append, walk_stay rfl, walk_nil] at h
    rw [← Except.ok.inj h, get?_nil] at hnone
    cases hnone

/-- A new directory stands in a directory, where nothing was, and the path leads to it. -/
theorem makeDirectory_ok (hd : d.WellFormed) (h : d.makeDirectory p = .ok e) :
    ∃ m there x, d.get? there = some .directory ∧ IsFileName x ∧
      d.Missing (Path.names p) (there ++ [x]) ∧ e = d.put (there ++ [x]) .directory ∧
      e.Reaches p m (there ++ [x]) := by
  unfold makeDirectory at h
  cases hloc : d.locate .keep
      (if trimSlashes p = [] ∨ maxPath < p.byteCount then p else trimSlashes p) with
  | error fault => simp [hloc, bind, Except.bind] at h
  | ok l =>
    simp only [hloc, bind, Except.bind] at h
    split at h
    · cases h
    rename_i hnone
    have hshort : ¬maxPath < p.byteCount := fun hlong => by
      have ha := allowed_of_locate hloc
      rw [if_pos (.inr hlong)] at ha
      exact Nat.not_lt.2 ha.short hlong
    simp only [hshort, or_false] at hloc
    have htrim : trimSlashes p ≠ [] := by
      intro hnil
      rw [if_pos hnil] at hloc
      exact trimSlashes_ne_nil_of_locate hloc hnone hnil
    rw [if_neg htrim] at hloc
    obtain ⟨xs, x, m, there, hnames, hname, hpass, rfl⟩ :=
      exists_entry_of_locate hd htrim hloc hnone
    refine ⟨m, there, x, hpass.directory hd (by simp), hname, ?_, (Except.ok.inj h).symm, ?_⟩
    · rw [hnames]
      exact .first hpass hname hnone
    rw [← Except.ok.inj h, Reaches, hnames]
    refine (hpass.mono (.of_le (le_put hnone _))).append ?_
    exact .enter hname.isEntryStep hname.short (by simp [get?_put]) .nil

theorem isDirectory_iff : d.isDirectory p = true ↔ ∃ l, d.find p = .ok (l, .directory) := by
  unfold isDirectory
  constructor
  · intro h
    split at h
    · rename_i l heq
      exact ⟨l, heq⟩
    · cases h
  · rintro ⟨l, hl⟩
    rw [hl]

theorem ensureDirectory_made (hd : d.WellFormed) : Made d (d.ensureDirectory p).2 := by
  unfold ensureDirectory
  split
  · rename_i e h
    obtain ⟨m, there, x, hdir, hx, hmissing, rfl, -⟩ := makeDirectory_ok hd h
    exact Adds.put hd hdir hx (hmissing.get?_eq_none hd) rfl
  · exact Adds.refl hd

theorem ensureDirectory_ok (hd : d.WellFormed) (hok : (d.ensureDirectory p).1 = .ok ()) :
    ∃ m l, (d.ensureDirectory p).2.Reaches p m l ∧
      ((d.ensureDirectory p).2 = d ∧ d.find p = .ok (l, .directory) ∨
        d.Missing (Path.names p) l ∧ (d.ensureDirectory p).2 = d.put l .directory) := by
  unfold ensureDirectory at hok ⊢
  cases h : d.makeDirectory p with
  | ok e =>
    obtain ⟨m, there, x, -, -, hmissing, rfl, hreach⟩ := makeDirectory_ok hd h
    exact ⟨m, _, hreach, .inr ⟨hmissing, rfl⟩⟩
  | error fault =>
    simp only [h] at hok
    split at hok
    · rename_i hisdir
      obtain ⟨l, hl⟩ := isDirectory_iff.1 hisdir
      obtain ⟨m, hreach⟩ := reaches_of_find hl
      exact ⟨m, l, hreach, .inl ⟨rfl, hl⟩⟩
    · cases hok

theorem ensureDirectory_error {fault : Fault} (h : d.ensureDirectory p = (.error fault, e)) :
    e = d := by
  unfold ensureDirectory at h
  split at h
  · cases h
  · exact (Prod.mk.inj h).2.symm

/-! ### With the directories above -/

theorem makeChain_made (hd : d.WellFormed) (above : Nat) (p : Path) :
    Made d (makeChain above p d).2 := by
  induction above generalizing p d with
  | zero => exact ensureDirectory_made hd
  | succ above ih =>
    have hfirst := ensureDirectory_made (p := p) hd
    unfold makeChain
    split
    · rename_i d' h
      rw [h] at hfirst
      split
      · exact hfirst
      · rename_i parent _
        have hparent := ih hfirst.wf parent
        split
        · rename_i d'' h'
          rw [h'] at hparent
          exact (hfirst.trans hparent).trans (ensureDirectory_made hparent.wf)
        · rename_i d'' h'
          rw [h'] at hparent
          exact hfirst.trans hparent
    · exact hfirst

@[simp] theorem makeDirectories_nil (d : Disk) : d.makeDirectories [] = (.ok (), d) := if_pos rfl

theorem makeDirectories_of_ne_nil (hp : p ≠ []) :
    d.makeDirectories p = makeChain p.length p d := if_neg hp

theorem makeDirectories_made (hd : d.WellFormed) (p : Path) : Made d (d.makeDirectories p).2 := by
  by_cases hp : p = []
  · rw [hp, makeDirectories_nil]
    exact .refl hd
  · rw [makeDirectories_of_ne_nil hp]
    exact makeChain_made hd p.length p

theorem passes_ups (d : Disk) (n ups : Nat) :
    Passes d n [] (List.replicate ups ['.', '.']) n [] := by
  induction ups with
  | zero => exact .nil
  | succ ups ih => rw [List.replicate_succ]; exact .up ih

theorem reaches_ups (d : Disk) {absolute : Bool} {ups : Nat}
    (h : Path.Place.Proper absolute ⟨ups, []⟩) :
    d.Reaches (Path.render (Path.Place.components absolute ⟨ups, []⟩)) maxLinks [] := by
  have hpieces : Path.Place.pieces ⟨ups, []⟩ = List.replicate ups ['.', '.'] := by
    simp [Path.Place.pieces]
  rw [Reaches, Path.names_render h, hpieces]
  exact passes_ups d maxLinks ups

theorem ensureDirectory_of_reaches_root (hd : d.WellFormed) (h : ∀ e : Disk, e.Reaches p m []) :
    (d.ensureDirectory p).2 = d := by
  unfold ensureDirectory
  split
  · rename_i e hmake
    obtain ⟨m', there, x, -, -, -, -, hreach⟩ := makeDirectory_ok hd hmake
    have := (h e).unique hreach
    simp at this
  · rfl

theorem makeChain_ups (hd : d.WellFormed) {absolute : Bool} {ups : Nat}
    (h : Path.Place.Proper absolute ⟨ups, []⟩) (above : Nat) :
    (makeChain above (Path.render (Path.Place.components absolute ⟨ups, []⟩)) d).2 = d := by
  have hfirst {k : Nat} (hk : Path.Place.Proper absolute ⟨k, []⟩) :=
    ensureDirectory_of_reaches_root hd fun e => reaches_ups e hk
  induction above generalizing ups with
  | zero => exact hfirst h
  | succ above ih =>
    have hsame := hfirst h
    unfold makeChain
    split
    · rename_i d' heq
      rw [heq] at hsame
      obtain rfl : d' = d := hsame
      rcases Path.parent?_render_ups h with hnone | ⟨k, hsome, hk⟩
      · rw [hnone]
      · rw [hsome]
        have hparent := ih hk
        dsimp only
        split
        · rename_i d'' heq'
          rw [heq'] at hparent
          obtain rfl : d'' = d' := hparent
          exact hfirst h
        · rename_i fault d'' heq'
          rwa [heq'] at hparent
    · exact hsame

/-- A chain that is made ends with its last directory. -/
theorem exists_ensureDirectory_of_makeChain (hd : d.WellFormed) {above : Nat}
    (hok : (makeChain above p d).1 = .ok ()) :
    ∃ e, Made d e ∧ makeChain above p d = e.ensureDirectory p := by
  cases above with
  | zero => exact ⟨d, .refl hd, rfl⟩
  | succ above =>
    have hmade := ensureDirectory_made (p := p) hd
    unfold makeChain at hok ⊢
    split at hok
    · rename_i e hfirst
      rw [hfirst] at hmade
      split at hok
      · cases hok
      · rename_i parent _
        have hchain := makeChain_made hmade.wf above parent
        split at hok
        · rename_i e' heq
          rw [heq] at hchain
          exact ⟨e', hmade.trans hchain, rfl⟩
        · cases hok
    · exact ⟨d, .refl hd, rfl⟩

theorem find_ups (hd : d.WellFormed) {absolute : Bool} {ups : Nat}
    (h : Path.Place.Proper absolute ⟨ups, []⟩) (above : Nat)
    (hok : (makeChain above (Path.render (Path.Place.components absolute ⟨ups, []⟩)) d).1 = .ok ()) :
    d.find (Path.render (Path.Place.components absolute ⟨ups, []⟩)) = .ok ([], .directory) := by
  have hreach := fun e : Disk => reaches_ups e h
  have hsame := makeChain_ups hd h above
  obtain ⟨e, hmade, heq⟩ := exists_ensureDirectory_of_makeChain hd hok
  rw [heq] at hok hsame
  rw [ensureDirectory_of_reaches_root hmade.wf hreach] at hsame
  obtain ⟨m, l, hlast, ⟨-, hfind⟩ | ⟨hmissing, -⟩⟩ := ensureDirectory_ok hmade.wf hok
  · rwa [← (hreach _).unique hlast, hsame] at hfind
  · have hnone := hmissing.get?_eq_none hmade.wf
    rw [← (hreach _).unique hlast] at hnone
    simp at hnone

/-- Nothing stands below `l`. -/
def NothingBelow (d : Disk) (l : Location) : Prop := ∀ k, isBelow l k = true → d.get? k = none

theorem nothingBelow_put (hd : d.WellFormed) (hnone : d.get? l = none) :
    (d.put l .directory).NothingBelow l := by
  intro k hk
  obtain ⟨x, r, rfl⟩ := isBelow_iff.1 hk
  rw [get?_put, if_neg (by simp)]
  exact hd.get?_append_eq_none (by simp) (by simp [hnone])

/-- The path leads to a directory of `e`, which was missing and is empty unless `e` is as `d`. -/
def Prepared (d e : Disk) (p : Path) : Prop :=
  ∃ m l, e.Reaches p m l ∧ (e = d ∧ d.find p = .ok (l, .directory) ∨
    d.Missing (Path.names p) l ∧ e.NothingBelow l)

theorem prepared_ensureDirectory (hd : d.WellFormed) (hok : (d.ensureDirectory p).1 = .ok ()) :
    Prepared d (d.ensureDirectory p).2 p := by
  obtain ⟨m, l, hreach, hsame | ⟨hmissing, hput⟩⟩ := ensureDirectory_ok hd hok
  · exact ⟨m, l, hreach, .inl hsame⟩
  · have hempty := nothingBelow_put hd (hmissing.get?_eq_none hd)
    exact ⟨m, l, hreach, .inr ⟨hmissing, hput ▸ hempty⟩⟩

theorem Reaches.eq_concat (hreach : d.Reaches q m there) (hx : Path.IsName x)
    (hp : Path.names p = Path.names q ++ [x])
    (hlink : ∀ target, d.get? (there ++ [x]) ≠ some (.link target)) (h : d.Reaches p n l) :
    l = there ++ [x] := by
  rw [Reaches, hp] at h
  have hxs : IsEntryStep x := ⟨by simp [isStay, hx.ne_nil, hx.ne_here], hx.ne_up⟩
  obtain ⟨m', there', hpass, hlast⟩ := passes_of_walk_concat hxs h.walk_follow
  obtain rfl : there = there' := hreach.unique hpass
  rw [walk_entry hxs (short_of_walk hxs hlast).1 (by simp), walkEntry] at hlast
  split at hlast
  · simpa [eq_comm] using hlast
  · rename_i target heq
    exact absurd heq (hlink target)
  · simpa [eq_comm] using hlast
  · simpa [eq_comm] using hlast

/-- In an empty directory one name more leads to nothing but its own entry. -/
theorem NothingBelow.eq_concat (hempty : d.NothingBelow there) (hreach : d.Reaches q m there)
    (hx : Path.IsName x) (hp : Path.names p = Path.names q ++ [x]) (hk : d.get? k = none)
    (h : (d.put k .directory).Reaches p n k) : k = there ++ [x] := by
  refine (hreach.mono (.of_le (le_put hk _))).eq_concat hx hp (fun target => ?_) h
  rw [get?_put]
  split
  · simp
  · simp [hempty (there ++ [x]) (by simp)]

theorem NothingBelow.ensureDirectory (hd : d.WellFormed) (hempty : d.NothingBelow there)
    (hreach : d.Reaches q m there) (hx : Path.IsName x)
    (hp : Path.names p = Path.names q ++ [x]) (hok : (d.ensureDirectory p).1 = .ok ()) :
    ∃ m, (d.ensureDirectory p).2.Reaches p m (there ++ [x]) ∧
      (d.ensureDirectory p).2.NothingBelow (there ++ [x]) := by
  obtain ⟨m', l, hreach', ⟨hsame, -⟩ | ⟨hmissing, hput⟩⟩ := ensureDirectory_ok hd hok
  · exfalso
    have hnone := hempty (there ++ [x]) (by simp)
    rw [hsame] at hreach'
    obtain rfl := hreach.eq_concat hx hp (by simp [hnone]) hreach'
    rw [hreach'.directory hd] at hnone
    cases hnone
  · have hl := hmissing.get?_eq_none hd
    rw [hput] at hreach' ⊢
    obtain rfl := hempty.eq_concat hreach hx hp hl hreach'
    exact ⟨m', hreach', nothingBelow_put hd hl⟩

theorem prepared_makeChain (hd : d.WellFormed) {absolute : Bool} {spot : Path.Place}
    (h : spot.Proper absolute) (above : Nat)
    (hok : (makeChain above (Path.render (spot.components absolute)) d).1 = .ok ()) :
    Prepared d (makeChain above (Path.render (spot.components absolute)) d).2
      (Path.render (spot.components absolute)) := by
  induction above generalizing spot with
  | zero => exact prepared_ensureDirectory hd hok
  | succ above ih =>
    obtain ⟨ups, ns⟩ := spot
    cases ns with
    | nil => exact ⟨_, [], reaches_ups _ h, .inl ⟨makeChain_ups hd h _, find_ups hd h _ hok⟩⟩
    | cons x ns =>
      have hparent := Path.parent?_render h
      have hnames := Path.names_render_cons h
      generalize Path.render (Path.Place.components absolute ⟨ups, x :: ns⟩) = p at *
      unfold makeChain at hok ⊢
      cases hfirst : d.ensureDirectory p with
      | mk answer d' =>
        have hdone : answer = .ok () → Prepared d d' p := by
          intro hanswer
          have := prepared_ensureDirectory (p := p) hd (by rw [hfirst, hanswer])
          rwa [hfirst] at this
        cases answer with
        | ok u => exact hdone rfl
        | error fault =>
          obtain rfl := ensureDirectory_error hfirst
          rw [hfirst] at hok
          cases fault with
          | noSuchFile =>
            simp only [hparent] at hok ⊢
            have hih := ih h.of_cons
            have hmade := makeChain_made hd above
              (Path.render (Path.Place.components absolute ⟨ups, ns⟩))
            split at hok
            · rename_i d'' hchain
              rw [hchain] at hih hmade
              obtain ⟨m, l, hreach, ⟨rfl, -⟩ | ⟨hmissing, hempty⟩⟩ := hih rfl
              · rw [hfirst] at hok
                cases hok
              · have hx := h.name x (by simp)
                obtain ⟨m', hreach', hempty'⟩ :=
                  hempty.ensureDirectory hmade.wf hreach hx hnames hok
                exact ⟨m', _, hreach', .inr ⟨hnames ▸ hmissing.behind hx, hempty'⟩⟩
            · cases hok
          | _ => cases hok

/-- What `makeDirectories` has made for a normal path is there. -/
theorem makeDirectories_ok (hd : d.WellFormed) (q : Path) (hne : Path.normalize q ≠ [])
    (hok : (d.makeDirectories (Path.normalize q)).1 = .ok ()) :
    Prepared d (d.makeDirectories (Path.normalize q)).2 (Path.normalize q) := by
  obtain ⟨absolute, spot, hproper, hq⟩ := Path.exists_place_normalize q
  rw [makeDirectories_of_ne_nil hne, hq] at hok ⊢
  exact prepared_makeChain hd hproper _ hok

/-- A directory that is missing on the way of a path, or to which the path itself would lead. -/
def MissingFor (d : Disk) (p : Path) (k : Location) : Prop :=
  ∃ xs, xs <+: Path.names p ∧ d.Missing xs k

theorem ensureDirectory_new (hd : d.WellFormed) (hnew : (d.ensureDirectory p).2.get? k ≠ none)
    (hnone : d.get? k = none) :
    ∃ m, d.Missing (Path.names p) k ∧ (d.put k .directory).Reaches p m k := by
  unfold ensureDirectory at hnew
  cases hmake : d.makeDirectory p with
  | ok e =>
    obtain ⟨m, there, x, -, -, hmissing, rfl, hreach⟩ := makeDirectory_ok hd hmake
    rw [hmake] at hnew
    dsimp only at hnew
    rw [get?_put] at hnew
    split at hnew
    · rename_i hk
      obtain rfl := hk.1
      exact ⟨m, hmissing, hreach⟩
    · exact absurd hnone hnew
  | error fault =>
    rw [hmake] at hnew
    exact absurd hnone hnew

theorem makeChain_missing (hd : d.WellFormed) {absolute : Bool} {spot : Path.Place}
    (h : spot.Proper absolute) (above : Nat)
    (hnew : (makeChain above (Path.render (spot.components absolute)) d).2.get? k ≠ none)
    (hnone : d.get? k = none) : d.MissingFor (Path.render (spot.components absolute)) k := by
  induction above generalizing spot with
  | zero =>
    obtain ⟨m, hmissing, -⟩ := ensureDirectory_new hd hnew hnone
    exact ⟨_, List.prefix_refl _, hmissing⟩
  | succ above ih =>
    obtain ⟨ups, ns⟩ := spot
    cases ns with
    | nil =>
      rw [makeChain_ups hd h] at hnew
      exact absurd hnone hnew
    | cons x ns =>
      have hparent := Path.parent?_render h
      have hnames := Path.names_render_cons h
      have hx := h.name x (by simp)
      generalize Path.render (Path.Place.components absolute ⟨ups, x :: ns⟩) = p at *
      have hfirst : (d.ensureDirectory p).2.get? k ≠ none → d.MissingFor p k := fun hnew => by
        obtain ⟨m, hmissing, -⟩ := ensureDirectory_new hd hnew hnone
        exact ⟨_, List.prefix_refl _, hmissing⟩
      unfold makeChain at hnew
      split at hnew
      · rename_i d' heq
        obtain rfl := ensureDirectory_error heq
        simp only [hparent] at hnew
        have hchain := ih h.of_cons
        have hprep := prepared_makeChain hd h.of_cons above
        have hmade := makeChain_made hd above
          (Path.render (Path.Place.components absolute ⟨ups, ns⟩))
        have hwider : d'.MissingFor (Path.render (Path.Place.components absolute ⟨ups, ns⟩)) k →
            d'.MissingFor p k := fun ⟨xs, hxs, hmissing⟩ =>
          ⟨xs, hxs.trans (hnames ▸ List.prefix_append ..), hmissing⟩
        split at hnew
        · rename_i d'' hok
          rw [hok] at hchain hprep hmade
          by_cases hk : d''.get? k = none
          · -- made by the last request, behind what the chain has made
            obtain ⟨m', -, hreach'⟩ := ensureDirectory_new hmade.wf hnew hk
            obtain ⟨m, l, hreach, ⟨rfl, -⟩ | ⟨hmissing, hempty⟩⟩ := hprep rfl
            · exact hfirst hnew
            · obtain rfl := hempty.eq_concat hreach hx hnames hk hreach'
              exact ⟨_, List.prefix_refl _, hnames ▸ hmissing.behind hx⟩
          · exact hwider (hchain hk)
        · rename_i fault d'' herror
          rw [herror] at hchain
          exact hwider (hchain hnew)
      · exact hfirst hnew

/-- Whatever is made for a normal path was missing on its way. -/
theorem makeDirectories_missing (hd : d.WellFormed) (q : Path)
    (hnew : (d.makeDirectories (Path.normalize q)).2.get? k ≠ none) (hnone : d.get? k = none) :
    d.MissingFor (Path.normalize q) k := by
  by_cases hne : Path.normalize q = []
  · rw [hne, makeDirectories_nil] at hnew
    exact absurd hnone hnew
  obtain ⟨absolute, spot, hproper, hq⟩ := Path.exists_place_normalize q
  rw [makeDirectories_of_ne_nil hne, hq] at hnew
  rw [hq]
  exact makeChain_missing hd hproper _ hnew hnone

theorem makeDirectories_of_find (hd : d.WellFormed) (h : d.find p = .ok (l, .directory)) :
    d.makeDirectories p = (.ok (), d) := by
  obtain ⟨m, hreach⟩ := reaches_of_find h
  have hfirst : d.ensureDirectory p = (.ok (), d) := by
    unfold ensureDirectory
    cases hmake : d.makeDirectory p with
    | ok e =>
      obtain ⟨m', there, x, -, -, hmissing, rfl, hreach'⟩ := makeDirectory_ok hd hmake
      have hnone := hmissing.get?_eq_none hd
      have hl := (hreach.mono (.of_le (le_put hnone .directory))).unique hreach'
      rw [← hl, hreach.directory hd] at hnone
      cases hnone
    | error fault => simp [isDirectory_iff.2 ⟨l, h⟩]
  rw [makeDirectories_of_ne_nil (allowed_of_find h).ne_nil]
  cases p.length with
  | zero => exact hfirst
  | succ above => rw [makeChain, hfirst]

/-- A normal path has no slash at its end, but for the root. -/
theorem trimSlashes_normalize (p : Path) :
    trimSlashes (Path.normalize p) = [] ∨ trimSlashes (Path.normalize p) = Path.normalize p := by
  obtain ⟨absolute, spot, hproper, hp⟩ := Path.exists_place_normalize p
  rw [hp, Path.render_components hproper]
  rcases List.eq_nil_or_concat' spot.pieces with hpieces | ⟨xs, x, hpieces⟩
  · rw [hpieces]
    cases absolute <;> exact .inl rfl
  · obtain ⟨hx, -, hslash⟩ := hproper.piece x (by simp [hpieces])
    obtain ⟨r, hr⟩ := Path.exists_join_concat xs x
    obtain ⟨y, c, rfl⟩ := (List.eq_nil_or_concat' x).resolve_left hx
    have hc : c ≠ '/' := by
      rintro rfl
      simp at hslash
    rw [hpieces, hr, ← List.append_assoc, ← List.append_assoc, trimSlashes_concat, if_neg hc]
    exact .inr rfl

theorem allowed_of_makeDirectories (hd : d.WellFormed) (q : Path) (hne : Path.normalize q ≠ [])
    (hok : (d.makeDirectories (Path.normalize q)).1 = .ok ()) : Allowed (Path.normalize q) := by
  rw [makeDirectories_of_ne_nil hne] at hok
  obtain ⟨e, -, hlast⟩ := exists_ensureDirectory_of_makeChain hd hok
  rw [hlast, ensureDirectory] at hok
  cases hmake : e.makeDirectory (Path.normalize q) with
  | error fault =>
    rw [hmake] at hok
    dsimp only at hok
    split at hok
    · rename_i hdir
      obtain ⟨l, hfind⟩ := isDirectory_iff.1 hdir
      exact allowed_of_find hfind
    · cases hok
  | ok made =>
    unfold makeDirectory at hmake
    have hpath : (if trimSlashes (Path.normalize q) = [] ∨ maxPath < (Path.normalize q).byteCount
        then Path.normalize q else trimSlashes (Path.normalize q)) = Path.normalize q := by
      rcases trimSlashes_normalize q with h | h
      · rw [if_pos (.inl h)]
      · rw [h, ite_self]
    simp only [hpath] at hmake
    cases hloc : e.locate .keep (Path.normalize q) with
    | error fault => simp [hloc, bind, Except.bind] at hmake
    | ok l => exact allowed_of_locate hloc

/-! ### In a directory that is there -/

theorem allowed_of_prefix (hp : p ≠ []) (hpq : p <+: q) (h : Allowed q) : Allowed p := by
  obtain ⟨r, rfl⟩ := hpq
  refine ⟨fun hnul => h.no_nul (by simp [hnul]), hp, Nat.le_trans ?_ h.short⟩
  rw [Text.byteCount_append]
  exact Nat.le_add_right ..

theorem trimSlashes_le (p : Path) : trimSlashes p <+: p := by
  rw [trimSlashes, ← List.reverse_suffix, List.reverse_reverse]
  exact List.dropWhile_suffix _

/-- No file system makes a directory under any other path. -/
theorem makeDirectory_of_not_allowed (hne : trimSlashes p ≠ []) (h : ¬Allowed p) :
    ∃ fault, fault ≠ .noSuchFile ∧ ∀ d : Disk, d.makeDirectory p = .error fault := by
  have hp : p ≠ [] := fun hnil => hne (by rw [hnil]; rfl)
  by_cases hlong : maxPath < p.byteCount
  · obtain ⟨fault, hfault, hloc⟩ := locate_of_not_allowed hp h
    exact ⟨fault, hfault, fun d => by simp [makeDirectory, hlong, hloc, bind, Except.bind]⟩
  · have hnul : '\x00' ∈ p := by
      by_contra hnul
      exact h ⟨hnul, hp, Nat.le_of_not_lt hlong⟩
    have htrim : ¬Allowed (trimSlashes p) := fun ha =>
      ha.no_nul ((mem_trimSlashes (by decide)).2 hnul)
    obtain ⟨fault, hfault, hloc⟩ := locate_of_not_allowed hne htrim
    exact ⟨fault, hfault, fun d => by simp [makeDirectory, hlong, hne, hloc, bind, Except.bind]⟩

/-- In a directory that is there, at most one is made, and only where nothing was. -/
theorem makeDirectories_of_reaches (hreach : d.Reaches q m there) (hx : IsFileName x)
    (hp : trimSlashes p = Path.append q x) :
    (d.get? (there ++ [x]) = none ∧ Allowed p ∧
      d.makeDirectories p = (.ok (), d.put (there ++ [x]) .directory)) ∨
    ∃ answer, d.makeDirectories p = (answer, d) ∧
      (answer = .ok () → d.get? (there ++ [x]) ≠ none) := by
  have hne : trimSlashes p ≠ [] := hp ▸ Path.append_ne_nil q hx.ne_nil hx.no_slash
  rw [makeDirectories_of_ne_nil fun hnil => hne (by rw [hnil]; rfl)]
  -- the first request is answered, so that nothing is made above
  have hchain : ∀ answer e, d.ensureDirectory p = (answer, e) → answer ≠ .error .noSuchFile →
      ∀ above, makeChain above p d = (answer, e) := by
    intro answer e h hanswer above
    cases above with
    | zero => exact h
    | succ above =>
      rw [makeChain, h]
      split
      · rename_i heq
        exact absurd (Prod.mk.inj heq).1 hanswer
      · rfl
  by_cases ha : Allowed p
  · have htrim := allowed_of_prefix hne (trimSlashes_le p) ha
    have hshort : ¬maxPath < p.byteCount := Nat.not_lt.2 ha.short
    have hloc : d.locate .keep (trimSlashes p) = .ok (there ++ [x]) := by
      rw [hp] at htrim ⊢
      rw [hreach.locate_append hx htrim, walk_keep_singleton hx]
    cases hget : d.get? (there ++ [x]) with
    | none =>
      have hmake : d.makeDirectory p = .ok (d.put (there ++ [x]) .directory) := by
        simp [makeDirectory, hne, hshort, hloc, hget, bind, Except.bind]
      refine .inl ⟨rfl, ha, hchain _ _ ?_ (by simp) _⟩
      rw [ensureDirectory, hmake]
    | some node =>
      have hmake : d.makeDirectory p = .error .fileExists := by
        simp [makeDirectory, hne, hshort, hloc, hget, bind, Except.bind]
      refine .inr ⟨if d.isDirectory p then .ok () else .error .fileExists, hchain _ _ ?_ ?_ _, by simp⟩
      · rw [ensureDirectory, hmake]
      · split <;> simp
  · have hfind : d.isDirectory p = false := by
      rw [Bool.eq_false_iff]
      intro hisdir
      obtain ⟨l, hl⟩ := isDirectory_iff.1 hisdir
      exact ha (allowed_of_find hl)
    obtain ⟨fault, hfault, hmake⟩ := makeDirectory_of_not_allowed hne ha
    refine .inr ⟨.error fault, hchain _ _ ?_ (by simpa using hfault) _, by simp⟩
    rw [ensureDirectory, hmake]
    simp [hfind]

end ModulePack.Disk
