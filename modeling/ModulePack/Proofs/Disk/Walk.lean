import ModulePack.Proofs.Disk.WellFormed

/-!
# Following paths

`Passes d n here xs m there`: the steps `xs` lead from `here` through directories and links of `d`
to the directory `there`, where `m` of `n` links are left. A walk over `xs` and further steps goes
on from there (`Passes.walk_append`), and only so can it succeed (`passes_of_walk`). The directories
and links that it passes are all that has to stay for a path to lead to the same place
(`Passes.mono`, `walk_of_le`). `visits` lists every location that a walk looks up, whether or not
something stands there: on disks that agree on those, the walk is the same (`walk_congr`).
-/

namespace ModulePack.Disk

variable {d e : Disk} {l k here there zone : Location} {x step : Text} {xs ys rest : List Text}
  {n m : Nat} {ending : Ending} {node : Node} {target p : Path}

/-! ### Single steps -/

/-- A step to an entry of a directory, neither staying nor going up. -/
def IsEntryStep (step : Text) : Prop := isStay step = false ∧ step ≠ ['.', '.']

theorem IsFileName.isEntryStep (h : IsFileName x) : IsEntryStep x :=
  ⟨by simp [isStay, h.ne_nil, h.ne_here], h.ne_up⟩

theorem IsEntryStep.ne_nil (h : IsEntryStep step) : step ≠ [] := by
  rintro rfl
  simp [IsEntryStep, isStay] at h

/-- Where the target of a link is seen from. -/
def linkBase (here : Location) (target : Path) : Location :=
  if Path.isAbsolute target then [] else here

theorem get?_linkBase (h : d.get? here = some .directory) (target : Path) :
    d.get? (linkBase here target) = some .directory := by
  unfold linkBase
  split
  · simp
  · exact h

theorem isBelow_linkBase (h : isBelow zone here = false) (target : Path) :
    isBelow zone (linkBase here target) = false := by
  unfold linkBase
  split
  · simp
  · exact h

/-- What follows a link where `n` more are allowed. -/
def afterLink (d : Disk) (ending : Ending) : (n : Nat) → Location → List Text →
    Except Fault Location
  | 0 => fun _ _ => .error .tooManyLinks
  | n + 1 => d.walk ending n

theorem walk_eq (d : Disk) (ending : Ending) (n : Nat) :
    d.walk ending n = d.walkWith ending (d.afterLink ending n) := by
  cases n <;> rfl

@[simp] theorem walk_nil : d.walk ending n here [] = .ok here := by
  rw [walk_eq]; rfl

@[simp] theorem isStay_up : isStay ['.', '.'] = false := rfl

theorem walk_stay (h : isStay step = true) :
    d.walk ending n here (step :: rest) = d.walk ending n here rest := by
  rw [walk_eq, walkWith, if_pos h]

theorem walk_up : d.walk ending n here (['.', '.'] :: rest) = d.walk ending n here.dropLast rest := by
  rw [walk_eq, walkWith, if_neg (by simp), if_pos rfl]

/-- A step to an entry that is not refused for its name. -/
def walkEntry (d : Disk) (ending : Ending) (n : Nat) (here : Location) (step : Text)
    (rest : List Text) : Except Fault Location :=
  match d.get? (here ++ [step]) with
  | none => if rest = [] then .ok (here ++ [step]) else .error .noSuchFile
  | some (.link target) =>
    if rest = [] ∧ ending = .keep then .ok (here ++ [step])
    else d.afterLink ending n (linkBase here target) (steps target ++ rest)
  | some .directory => d.walk ending n (here ++ [step]) rest
  | some (.file _) => if rest = [] then .ok (here ++ [step]) else .error .notADirectory

theorem walk_cons (h : IsEntryStep step) :
    d.walk ending n here (step :: rest) =
      if ending = .create ∧ rest = [[]] then .error .isADirectory
      else if maxName < step.byteCount then .error .nameTooLong
      else d.walkEntry ending n here step rest := by
  rw [walk_eq, walkWith, if_neg (by simp [h.1]), if_neg h.2, walkEntry, walk_eq]
  rfl

theorem walk_entry (h : IsEntryStep step) (hshort : step.byteCount ≤ maxName)
    (hend : ¬(ending = .create ∧ rest = [[]])) :
    d.walk ending n here (step :: rest) = d.walkEntry ending n here step rest := by
  rw [walk_cons h, if_neg hend, if_neg (Nat.not_lt.2 hshort)]

theorem short_of_walk (h : IsEntryStep step) (hw : d.walk ending n here (step :: rest) = .ok l) :
    step.byteCount ≤ maxName ∧ ¬(ending = .create ∧ rest = [[]]) := by
  rw [walk_cons h] at hw
  split at hw
  · cases hw
  · rename_i hend
    split at hw
    · cases hw
    · rename_i hshort
      exact ⟨Nat.le_of_not_lt hshort, hend⟩

/-- Induction along a walk: on the links that are left, then on the steps. -/
@[elab_as_elim] theorem walk_induct {motive : Nat → Location → List Text → Prop}
    (nil : ∀ n here, motive n here [])
    (stay : ∀ n here step rest, isStay step = true → motive n here rest →
      motive n here (step :: rest))
    (up : ∀ n here rest, motive n here.dropLast rest → motive n here (['.', '.'] :: rest))
    (entry : ∀ n here step rest, IsEntryStep step → motive n (here ++ [step]) rest →
      (∀ m, n = m + 1 → ∀ base steps, motive m base steps) → motive n here (step :: rest))
    (n : Nat) (here : Location) (xs : List Text) : motive n here xs := by
  induction n generalizing here xs with
  | zero =>
    induction xs generalizing here with
    | nil => exact nil 0 here
    | cons step rest ih =>
      by_cases hstay : isStay step = true
      · exact stay _ _ _ _ hstay (ih here)
      · by_cases hup : step = ['.', '.']
        · exact hup ▸ up _ _ _ (ih _)
        · exact entry _ _ _ _ ⟨by simpa using hstay, hup⟩ (ih _) (by simp)
  | succ n ihn =>
    induction xs generalizing here with
    | nil => exact nil _ here
    | cons step rest ih =>
      by_cases hstay : isStay step = true
      · exact stay _ _ _ _ hstay (ih here)
      · by_cases hup : step = ['.', '.']
        · exact hup ▸ up _ _ _ (ih _)
        · refine entry _ _ _ _ ⟨by simpa using hstay, hup⟩ (ih _) fun m hm base steps => ?_
          obtain rfl : n = m := by omega
          exact ihn base steps

/-! ### Passing through directories -/

/-- The steps `xs` lead from `here` through directories and links to the directory `there`, where
`m` of `n` links are left. -/
inductive Passes (d : Disk) : Nat → Location → List Text → Nat → Location → Prop
  | nil {n : Nat} {here : Location} : Passes d n here [] n here
  | stay {n m : Nat} {here there : Location} {step : Text} {rest : List Text}
      (hstep : isStay step = true) (hrest : Passes d n here rest m there) :
      Passes d n here (step :: rest) m there
  | up {n m : Nat} {here there : Location} {rest : List Text}
      (hrest : Passes d n here.dropLast rest m there) :
      Passes d n here (['.', '.'] :: rest) m there
  | enter {n m : Nat} {here there : Location} {step : Text} {rest : List Text}
      (hstep : IsEntryStep step) (hshort : step.byteCount ≤ maxName)
      (hdir : d.get? (here ++ [step]) = some .directory)
      (hrest : Passes d n (here ++ [step]) rest m there) :
      Passes d n here (step :: rest) m there
  | jump {n m : Nat} {here there : Location} {step : Text} {rest : List Text} {target : Path}
      (hstep : IsEntryStep step) (hshort : step.byteCount ≤ maxName)
      (hlink : d.get? (here ++ [step]) = some (.link target))
      (hrest : Passes d n (linkBase here target) (steps target ++ rest) m there) :
      Passes d (n + 1) here (step :: rest) m there

/-- Every directory and every link of `d` is also in `e`. -/
structure Ways (d e : Disk) : Prop where
  directory : ∀ l, d.get? l = some .directory → e.get? l = some .directory
  link : ∀ l target, d.get? l = some (.link target) → e.get? l = some (.link target)

theorem Ways.of_le (h : d ≤ e) : Ways d e := ⟨fun l => h l _, fun l _ => h l _⟩

namespace Passes

theorem mono (h : Passes d n here xs m there) (hde : Ways d e) : Passes e n here xs m there := by
  induction h with
  | nil => exact nil
  | stay hstep _ ih => exact stay hstep ih
  | up _ ih => exact up ih
  | enter hstep hshort hdir _ ih => exact enter hstep hshort (hde.directory _ hdir) ih
  | jump hstep hshort hlink _ ih => exact jump hstep hshort (hde.link _ _ hlink) ih

theorem links_le (h : Passes d n here xs m there) : m ≤ n := by
  induction h with
  | nil => exact Nat.le_refl _
  | stay _ _ ih | up _ ih | enter _ _ _ _ ih => exact ih
  | jump _ _ _ _ ih => omega

theorem directory (h : Passes d n here xs m there) (hd : d.WellFormed)
    (hhere : d.get? here = some .directory) : d.get? there = some .directory := by
  induction h with
  | nil => exact hhere
  | stay _ _ ih => exact ih hhere
  | up _ ih => exact ih (hd.dropLast hhere)
  | enter _ _ hdir _ ih => exact ih hdir
  | @jump n m here there step rest target _ _ _ _ ih => exact ih (get?_linkBase hhere target)

theorem append (h : Passes d n here xs m there) {m' : Nat} {there' : Location}
    (h' : Passes d m there ys m' there') : Passes d n here (xs ++ ys) m' there' := by
  induction h with
  | nil => exact h'
  | stay hstep _ ih => exact stay hstep (ih h')
  | up _ ih => exact up (ih h')
  | enter hstep hshort hdir _ ih => exact enter hstep hshort hdir (ih h')
  | jump hstep hshort hlink _ ih => exact jump hstep hshort hlink (by simpa using ih h')

theorem walk_append (h : Passes d n here xs m there) (hne : ys ≠ []) (hslash : ys ≠ [[]]) :
    d.walk ending n here (xs ++ ys) = d.walk ending m there ys := by
  have hrest : ∀ zs : List Text, zs ++ ys ≠ [] ∧ zs ++ ys ≠ [[]] := by
    intro zs
    cases zs with
    | nil => exact ⟨hne, hslash⟩
    | cons z zs => simp [hne]
  induction h with
  | nil => rfl
  | stay hstep _ ih => rw [List.cons_append, walk_stay hstep, ih]
  | up _ ih => rw [List.cons_append, walk_up, ih]
  | @enter n m here there step rest hstep hshort hdir _ ih =>
    rw [List.cons_append, walk_entry hstep hshort fun h => (hrest rest).2 h.2, walkEntry, hdir]
    exact ih
  | @jump n m here there step rest target hstep hshort hlink _ ih =>
    rw [List.cons_append, walk_entry hstep hshort fun h => (hrest rest).2 h.2, walkEntry, hlink]
    simp only [(hrest rest).1, false_and, if_false]
    rw [← ih, List.append_assoc]
    rfl

theorem walk_follow (h : Passes d n here xs m there) : d.walk .follow n here xs = .ok there := by
  induction h with
  | nil => exact walk_nil
  | stay hstep _ ih => rw [walk_stay hstep, ih]
  | up _ ih => rw [walk_up, ih]
  | enter hstep hshort hdir _ ih => rw [walk_entry hstep hshort (by simp), walkEntry, hdir]; exact ih
  | jump hstep hshort hlink _ ih =>
    rw [walk_entry hstep hshort (by simp), walkEntry, hlink]
    simp only [reduceCtorEq, and_false, if_false]
    exact ih

end Passes

theorem passes_of_walk (hw : d.walk .follow n here xs = .ok l) (hl : d.get? l = some .directory) :
    ∃ m, Passes d n here xs m l := by
  induction n, here, xs using walk_induct with
  | nil n here =>
    obtain rfl : here = l := by simpa using hw
    exact ⟨n, .nil⟩
  | stay n here step rest hstep ih =>
    rw [walk_stay hstep] at hw
    obtain ⟨m, h⟩ := ih hw
    exact ⟨m, .stay hstep h⟩
  | up n here rest ih =>
    rw [walk_up] at hw
    obtain ⟨m, h⟩ := ih hw
    exact ⟨m, .up h⟩
  | entry n here step rest hstep ih ihlink =>
    obtain ⟨hshort, hend⟩ := short_of_walk hstep hw
    rw [walk_entry hstep hshort hend, walkEntry] at hw
    split at hw
    · rename_i hnone
      split at hw
      · cases hw
        rw [hnone] at hl
        cases hl
      · cases hw
    · rename_i target hlink
      simp only [reduceCtorEq, and_false, if_false] at hw
      cases n with
      | zero => cases hw
      | succ n =>
        obtain ⟨m, h⟩ := ihlink n rfl _ _ hw
        exact ⟨m, .jump hstep hshort hlink h⟩
    · rename_i hdir
      obtain ⟨m, h⟩ := ih hw
      exact ⟨m, .enter hstep hshort hdir h⟩
    · rename_i hfile
      split at hw
      · cases hw
        rw [hfile] at hl
        cases hl
      · cases hw

/-- A walk that succeeds passes through directories up to its last step. -/
theorem passes_of_walk_concat (hx : IsEntryStep x)
    (hw : d.walk ending n here (xs ++ [x]) = .ok l) :
    ∃ m there, Passes d n here xs m there ∧ d.walk ending m there [x] = .ok l := by
  have hrest : ∀ zs : List Text, zs ++ [x] ≠ [] ∧ zs ++ [x] ≠ [[]] := by
    intro zs
    cases zs <;> simp [hx.ne_nil]
  induction n, here, xs using walk_induct with
  | nil n here => exact ⟨n, here, .nil, hw⟩
  | stay n here step rest hstep ih =>
    rw [List.cons_append, walk_stay hstep] at hw
    obtain ⟨m, there, h, hlast⟩ := ih hw
    exact ⟨m, there, .stay hstep h, hlast⟩
  | up n here rest ih =>
    rw [List.cons_append, walk_up] at hw
    obtain ⟨m, there, h, hlast⟩ := ih hw
    exact ⟨m, there, .up h, hlast⟩
  | entry n here step rest hstep ih ihlink =>
    rw [List.cons_append] at hw
    obtain ⟨hshort, hend⟩ := short_of_walk hstep hw
    rw [walk_entry hstep hshort hend, walkEntry] at hw
    simp only [(hrest rest).1, false_and, if_false] at hw
    split at hw
    · cases hw
    · rename_i target hlink
      rw [← List.append_assoc] at hw
      cases n with
      | zero => cases hw
      | succ n =>
        obtain ⟨m, there, h, hlast⟩ := ihlink n rfl _ _ hw
        exact ⟨m, there, .jump hstep hshort hlink h, hlast⟩
    · rename_i hdir
      obtain ⟨m, there, h, hlast⟩ := ih hw
      exact ⟨m, there, .enter hstep hshort hdir h, hlast⟩
    · cases hw

theorem passes_location (hd : d.WellFormed) (hl : d.get? l = some .directory) (n : Nat) :
    Passes d n [] l n l := by
  induction l using List.reverseRecOn with
  | nil => exact .nil
  | append_singleton l x ih =>
    have hx := hd.isFileName hl
    exact (ih (hd.parent hl)).append (.enter hx.isEntryStep hx.short hl .nil)

/-- Where a path can be followed, it also names an entry. -/
theorem walk_keep_of_follow (hd : d.WellFormed) (hhere : d.get? here = some .directory)
    (hw : d.walk .follow n here xs = .ok l) (hl : d.get? l = some node) :
    ∃ k other, d.walk .keep n here xs = .ok k ∧ d.get? k = some other := by
  induction n, here, xs using walk_induct with
  | nil n here => exact ⟨here, _, walk_nil, hhere⟩
  | stay n here step rest hstep ih =>
    rw [walk_stay hstep] at hw ⊢
    exact ih hhere hw
  | up n here rest ih =>
    rw [walk_up] at hw ⊢
    exact ih (hd.dropLast hhere) hw
  | entry n here step rest hstep ih ihlink =>
    obtain ⟨hshort, hend⟩ := short_of_walk hstep hw
    rw [walk_entry hstep hshort hend, walkEntry] at hw
    rw [walk_entry hstep hshort (by simp), walkEntry]
    split at hw
    · rename_i hnone
      split at hw
      · cases hw
        rw [hnone] at hl
        cases hl
      · cases hw
    · rename_i target hlink
      simp only [reduceCtorEq, and_false, if_false] at hw
      split
      · exact ⟨_, _, rfl, hlink⟩
      · cases n with
        | zero => cases hw
        | succ n => exact ihlink n rfl _ _ (get?_linkBase hhere target) hw
    · rename_i hdir
      exact ih hdir hw
    · rename_i hfile
      split at hw
      · rename_i hrest
        exact ⟨_, _, if_pos hrest, hfile⟩
      · cases hw

/-! ### The locations that a walk looks up -/

/-- The locations looked up on the way along steps, where `jump` lists those behind a link. -/
def visitsWith (d : Disk) (jump : Location → List Text → List Location) :
    Location → List Text → List Location
  | _, [] => []
  | here, step :: rest =>
    if isStay step then visitsWith d jump here rest
    else if step = ['.', '.'] then visitsWith d jump here.dropLast rest
    else
      let next := here ++ [step]
      next :: match d.get? next with
        | some (.link target) => jump (linkBase here target) (steps target ++ rest)
        | some .directory => visitsWith d jump next rest
        | _ => []

/-- The locations looked up on the way along steps through at most `links` links. -/
def visits (d : Disk) : (links : Nat) → Location → List Text → List Location
  | 0 => d.visitsWith fun _ _ => []
  | links + 1 => d.visitsWith (d.visits links)

/-- What is looked up behind a link where `n` more are allowed. -/
def visitsAfterLink (d : Disk) : (n : Nat) → Location → List Text → List Location
  | 0 => fun _ _ => []
  | n + 1 => d.visits n

theorem visits_eq (d : Disk) (n : Nat) : d.visits n = d.visitsWith (d.visitsAfterLink n) := by
  cases n <;> rfl

@[simp] theorem visits_nil : d.visits n here [] = [] := by rw [visits_eq]; rfl

theorem visits_stay (h : isStay step = true) :
    d.visits n here (step :: rest) = d.visits n here rest := by
  rw [visits_eq, visitsWith, if_pos h]

theorem visits_up : d.visits n here (['.', '.'] :: rest) = d.visits n here.dropLast rest := by
  rw [visits_eq, visitsWith, if_neg (by simp), if_pos rfl]

theorem visits_entry (h : IsEntryStep step) :
    d.visits n here (step :: rest) = (here ++ [step]) ::
      match d.get? (here ++ [step]) with
      | some (.link target) => d.visitsAfterLink n (linkBase here target) (steps target ++ rest)
      | some .directory => d.visits n (here ++ [step]) rest
      | _ => [] := by
  rw [visits_eq, visitsWith, if_neg (by simp [h.1]), if_neg h.2]

/-- Disks that agree on what a walk looks up agree on where it leads. -/
theorem walk_congr (hv : ∀ v ∈ d.visits n here xs, d.get? v = e.get? v) :
    d.walk ending n here xs = e.walk ending n here xs := by
  induction n, here, xs using walk_induct with
  | nil n here => simp
  | stay n here step rest hstep ih =>
    rw [visits_stay hstep] at hv
    rw [walk_stay hstep, walk_stay hstep, ih hv]
  | up n here rest ih =>
    rw [visits_up] at hv
    rw [walk_up, walk_up, ih hv]
  | entry n here step rest hstep ih ihlink =>
    rw [visits_entry hstep] at hv
    have hnext := hv _ List.mem_cons_self
    have hlater := fun v h => hv v (List.mem_cons_of_mem _ h)
    have hentry : d.walkEntry ending n here step rest = e.walkEntry ending n here step rest := by
      rw [walkEntry, walkEntry, ← hnext]
      split at hlater
      · rename_i target hlink
        rw [hlink]
        cases n with
        | zero => rfl
        | succ n => simp only [afterLink, ihlink n rfl _ _ hlater]
      · rename_i hdir
        simp only [hdir, ih hlater]
      · rename_i hlink hdir
        cases hget : d.get? (here ++ [step]) with
        | none => rfl
        | some node =>
          cases node with
          | file _ => rfl
          | directory => exact absurd hget hdir
          | link target => exact absurd hget (hlink target)
    rw [walk_cons hstep, walk_cons hstep, hentry]

/-- A walk to something that stands there leads to the same place on every disk that has what it
finds on its way. -/
theorem walk_of_visits
    (hv : ∀ v ∈ d.visits n here xs, ∀ node, d.get? v = some node → e.get? v = some node)
    (hw : d.walk ending n here xs = .ok l) (hl : d.get? l = some node) :
    e.walk ending n here xs = .ok l := by
  induction n, here, xs using walk_induct with
  | nil n here => simpa using hw
  | stay n here step rest hstep ih =>
    rw [visits_stay hstep] at hv
    rw [walk_stay hstep] at hw ⊢
    exact ih hv hw
  | up n here rest ih =>
    rw [visits_up] at hv
    rw [walk_up] at hw ⊢
    exact ih hv hw
  | entry n here step rest hstep ih ihlink =>
    obtain ⟨hshort, hend⟩ := short_of_walk hstep hw
    rw [visits_entry hstep] at hv
    have hnext := hv _ List.mem_cons_self
    have hlater := fun v h => hv v (List.mem_cons_of_mem _ h)
    rw [walk_entry hstep hshort hend, walkEntry] at hw ⊢
    split at hw
    · rename_i hnone
      split at hw
      · cases hw
        rw [hnone] at hl
        cases hl
      · cases hw
    · rename_i target hlink
      rw [hlink] at hlater
      rw [hnext _ hlink]
      dsimp only
      split at hw
      · rename_i hkeep
        rw [if_pos hkeep]
        exact hw
      · rename_i hkeep
        rw [if_neg hkeep]
        cases n with
        | zero => cases hw
        | succ n => exact ihlink n rfl _ _ hlater hw
    · rename_i hdir
      rw [hdir] at hlater
      rw [hnext _ hdir]
      exact ih hlater hw
    · rename_i hfile
      rw [hnext _ hfile]
      exact hw

theorem walk_of_le (hde : d ≤ e) (hw : d.walk ending n here xs = .ok l)
    (hl : d.get? l = some node) : e.walk ending n here xs = .ok l :=
  walk_of_visits (fun v _ => hde v) hw hl

/-- Where a walk that looks up nothing below `zone` leads is not below `zone`. -/
theorem not_isBelow_of_walk (hv : ∀ v ∈ d.visits n here xs, isBelow zone v = false)
    (hhere : isBelow zone here = false) (hw : d.walk ending n here xs = .ok l) :
    isBelow zone l = false := by
  induction n, here, xs using walk_induct with
  | nil n here =>
    obtain rfl : here = l := by simpa using hw
    exact hhere
  | stay n here step rest hstep ih =>
    rw [visits_stay hstep] at hv
    rw [walk_stay hstep] at hw
    exact ih hv hhere hw
  | up n here rest ih =>
    rw [visits_up] at hv
    rw [walk_up] at hw
    exact ih hv (isBelow_dropLast hhere) hw
  | entry n here step rest hstep ih ihlink =>
    obtain ⟨hshort, hend⟩ := short_of_walk hstep hw
    rw [visits_entry hstep] at hv
    have hnext := hv _ List.mem_cons_self
    have hlater := fun v h => hv v (List.mem_cons_of_mem _ h)
    rw [walk_entry hstep hshort hend, walkEntry] at hw
    split at hw
    · split at hw
      · cases hw
        exact hnext
      · cases hw
    · rename_i target hlink
      rw [hlink] at hlater
      split at hw
      · cases hw
        exact hnext
      · cases n with
        | zero => cases hw
        | succ n => exact ihlink n rfl _ _ hlater (isBelow_linkBase hhere target) hw
    · rename_i hdir
      rw [hdir] at hlater
      exact ih hlater hnext hw
    · split at hw
      · cases hw
        exact hnext
      · cases hw

/-- What is looked up after steps that pass is looked up on the whole way. -/
theorem Passes.mem_visits (h : Passes d n here xs m there) {v : Location}
    (hv : v ∈ d.visits m there ys) : v ∈ d.visits n here (xs ++ ys) := by
  induction h with
  | nil => exact hv
  | stay hstep _ ih => rw [List.cons_append, visits_stay hstep]; exact ih hv
  | up _ ih => rw [List.cons_append, visits_up]; exact ih hv
  | enter hstep _ hdir _ ih =>
    rw [List.cons_append, visits_entry hstep, hdir]
    exact List.mem_cons_of_mem _ (ih hv)
  | jump hstep _ hlink _ ih =>
    rw [List.cons_append, visits_entry hstep, hlink]
    exact List.mem_cons_of_mem _ (by simpa [visitsAfterLink] using ih hv)

theorem mem_visits_of_links_le (hnm : n ≤ m) {v : Location} (hv : v ∈ d.visits n here xs) :
    v ∈ d.visits m here xs := by
  induction n, here, xs using walk_induct generalizing m with
  | nil n here => simp at hv
  | stay n here step rest hstep ih =>
    rw [visits_stay hstep] at hv ⊢
    exact ih hnm hv
  | up n here rest ih =>
    rw [visits_up] at hv ⊢
    exact ih hnm hv
  | entry n here step rest hstep ih ihlink =>
    rw [visits_entry hstep] at hv ⊢
    rcases List.mem_cons.1 hv with rfl | hv
    · exact List.mem_cons_self
    refine List.mem_cons_of_mem _ ?_
    split at hv
    · cases n with
      | zero => cases hv
      | succ n =>
        obtain ⟨m, rfl⟩ : ∃ m', m = m' + 1 := ⟨m - 1, by omega⟩
        exact ihlink n rfl _ _ (by omega) hv
    · exact ih hnm hv
    · exact hv

/-! ### Walks with further links -/

theorem walk_of_links_le (hnm : n ≤ m) (hw : d.walk ending n here xs = .ok l) :
    d.walk ending m here xs = .ok l := by
  induction n, here, xs using walk_induct generalizing m with
  | nil n here => simpa using hw
  | stay n here step rest hstep ih =>
    rw [walk_stay hstep] at hw ⊢
    exact ih hnm hw
  | up n here rest ih =>
    rw [walk_up] at hw ⊢
    exact ih hnm hw
  | entry n here step rest hstep ih ihlink =>
    obtain ⟨hshort, hend⟩ := short_of_walk hstep hw
    rw [walk_entry hstep hshort hend, walkEntry] at hw ⊢
    split at hw
    · exact hw
    · split at hw
      · rename_i hkeep
        rw [if_pos hkeep]
        exact hw
      · rename_i hkeep
        rw [if_neg hkeep]
        cases n with
        | zero => cases hw
        | succ n =>
          obtain ⟨m, rfl⟩ : ∃ m', m = m' + 1 := ⟨m - 1, by omega⟩
          exact ihlink n rfl _ _ (by omega) hw
    · exact ih hnm hw
    · exact hw

end ModulePack.Disk
