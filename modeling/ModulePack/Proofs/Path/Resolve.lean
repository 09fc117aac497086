import ModulePack.Proofs.Path.Normal

/-!
# Resolving step by step

A segment resolved from a base goes on from the place of the base, component by component
(`place_append`), and normalizing changes neither the place nor whether a path is absolute, which
both together determine the normal path (`normalize_eq_iff`). So it makes no difference whether a
path is normalized before further segments are resolved from it (`resolve_append`).
-/

namespace ModulePack.Path

variable {base p q : Path} {segment x : Text} {absolute : Bool} {spot : Place} {ns : List Text}
  {cs : List Component}

/-! ### Components that lead somewhere -/

/-- The components of a path that have an effect on the place. -/
def parts (p : Path) : List Component := (pieces p).filterMap Component.ofPiece?

@[simp] theorem parts_nil : parts [] = [] := rfl

theorem parts_append_slash (p q : Path) : parts (p ++ '/' :: q) = parts p ++ parts q := by
  simp [parts, pieces_append_slash]

theorem parts_of_isName (h : IsName x) : parts x = [.name x] := by
  simp [parts, pieces_of_no_slash h.no_slash, ofPiece?_of_isName h]

theorem parts_join (xs : List Text) : parts (Text.join ['/'] xs) = xs.flatMap parts := by
  induction xs with
  | nil => rfl
  | cons x xs ih =>
    by_cases h : xs = []
    · simp [h]
    · rw [Text.join_cons h, List.append_assoc, List.singleton_append, parts_append_slash, ih,
        List.flatMap_cons]

theorem place_eq (p : Path) : place p = (parts p).foldl (Place.step (isAbsolute p)) ⟨0, []⟩ := by
  rw [place, components]
  split
  · rename_i h
    exact absurd h (pieces_ne_nil p)
  · rename_i rest h
    rw [parts, h]
    split
    · rename_i hp
      obtain rfl : rest = [] := by
        rw [hp] at h
        cases h
        rfl
      rfl
    · rfl
  · rename_i rest h
    rw [parts, h]
    rfl
  · rename_i first rest _ _ h
    rw [parts, h]

/-! ### Steps -/

theorem foldl_step_names (ups : Nat) (xs ns : List Text) :
    (xs.map Component.name).foldl (Place.step absolute) ⟨ups, ns⟩ = ⟨ups, xs.reverse ++ ns⟩ := by
  induction xs generalizing ns with
  | nil => rfl
  | cons x xs ih => simp [Place.step, ih]

theorem foldl_step_ups (n ups : Nat) :
    (List.replicate n Component.up).foldl (Place.step false) ⟨ups, []⟩ = ⟨ups + n, []⟩ := by
  induction n generalizing ups with
  | zero => rfl
  | succ n ih =>
    rw [List.replicate_succ, List.foldl_cons, Place.step]
    simp only [Bool.false_eq_true, if_false]
    rw [ih]
    congr 1
    omega

/-- In an absolute place, each step up undoes a name, and there is nothing above the root. -/
theorem foldl_step_drop (n : Nat) (ns : List Text) :
    (List.replicate n Component.up).foldl (Place.step true) ⟨0, ns⟩ = ⟨0, ns.drop n⟩ := by
  induction n generalizing ns with
  | zero => rfl
  | succ n ih =>
    rw [List.replicate_succ, List.foldl_cons]
    cases ns with
    | nil => exact (ih []).trans (by simp)
    | cons x ns => exact ih ns

/-- Components lead from an absolute place to names of their own behind some of its names. -/
theorem exists_foldl_step (cs : List Component) (ns : List Text) :
    ∃ ws n, cs.foldl (Place.step true) ⟨0, ns⟩ = ⟨0, ws ++ ns.drop n⟩ ∧ ∀ w ∈ ws, .name w ∈ cs := by
  -- by the last component, as it is on top of the stack
  induction cs using List.reverseRecOn with
  | nil => exact ⟨[], 0, rfl, by simp⟩
  | append_singleton cs c ih =>
    obtain ⟨ws, n, hfold, hws⟩ := ih
    have hkeep : ∀ w ∈ ws, .name w ∈ cs ++ [c] := fun w hw => List.mem_append_left _ (hws w hw)
    rw [List.foldl_append, hfold, List.foldl_cons, List.foldl_nil]
    cases c with
    | root => exact ⟨ws, n, rfl, hkeep⟩
    | here => exact ⟨ws, n, rfl, hkeep⟩
    | name x =>
      refine ⟨x :: ws, n, rfl, fun w hw => ?_⟩
      rcases List.mem_cons.1 hw with rfl | hw
      · simp
      · exact hkeep w hw
    | up =>
      cases ws with
      | nil =>
        refine ⟨[], n + 1, ?_, by simp⟩
        have hdrop := foldl_step_drop 1 (ns.drop n)
        rw [List.drop_drop] at hdrop
        exact hdrop
      | cons w ws => exact ⟨ws, n, rfl, fun v hv => hkeep v (List.mem_cons_of_mem _ hv)⟩

/-! ### Segments -/

/-- A relative segment stands behind one slash, unless the base is empty. -/
theorem append_relative (base : Path) (h : isAbsolute segment = false) :
    (base = [] ∧ append base segment = segment) ∨
      ∃ q, append base segment = q ++ '/' :: segment ∧ (base = q ∨ base = q ++ ['/']) := by
  rw [append, h, Bool.false_or]
  rcases List.eq_nil_or_concat' base with rfl | ⟨q, c, rfl⟩
  · exact .inl ⟨rfl, rfl⟩
  · refine .inr ?_
    by_cases hc : c = '/'
    · exact ⟨q, by simp [hc], .inr (by rw [hc])⟩
    · exact ⟨q ++ [c], by simp [hc], .inl rfl⟩

theorem append_absolute (base : Path) (h : isAbsolute segment = true) :
    append base segment = segment := by
  rw [append, h, Bool.true_or, if_pos rfl]

theorem parts_append (base : Path) (h : isAbsolute segment = false) :
    parts (append base segment) = parts base ++ parts segment := by
  rcases append_relative base h with ⟨rfl, heq⟩ | ⟨q, heq, rfl | rfl⟩
  · rw [heq, parts_nil, List.nil_append]
  · rw [heq, parts_append_slash]
  · rw [heq, parts_append_slash, parts_append_slash, parts_nil, List.append_nil]

theorem isAbsolute_append (base segment : Path) :
    isAbsolute (append base segment) = (isAbsolute base || isAbsolute segment) := by
  rw [append]
  cases hsegment : isAbsolute segment with
  | true => simp [hsegment]
  | false =>
    cases base with
    | nil => exact hsegment
    | cons c base =>
      simp only [List.isEmpty_cons, Bool.or_self, Bool.false_eq_true, if_false, Bool.or_false]
      split <;> rfl

theorem place_append (base : Path) (h : isAbsolute segment = false) :
    place (append base segment) = (parts segment).foldl (Place.step (isAbsolute base)) (place base) := by
  rw [place_eq, place_eq base, parts_append base h, isAbsolute_append, h,
    Bool.or_false, List.foldl_append]

/-- From an absolute base, a segment goes on from there or begins again at the root. -/
theorem place_append_absolute (h : isAbsolute base = true) (segment : Path) :
    place (append base segment) = (parts segment).foldl (Place.step true)
      (if isAbsolute segment then ⟨0, []⟩ else place base) := by
  cases hsegment : isAbsolute segment with
  | true => rw [append_absolute base hsegment, place_eq, hsegment]; rfl
  | false => rw [place_append base hsegment, h]; rfl

/-- Steps up in front of a segment take as many names of the base away, whether it goes on from
there or not. -/
theorem exists_place_append {n : Nat} (h : isAbsolute base = true)
    (hparts : parts segment = List.replicate n .up ++ cs) :
    ∃ ws rest, place (append base segment) = ⟨0, ws ++ rest⟩ ∧ (∀ w ∈ ws, .name w ∈ cs) ∧
      rest.length ≤ (place base).names.length - n := by
  obtain ⟨stack, hstack, hlen⟩ : ∃ stack : List Text,
      (if isAbsolute segment then ⟨0, []⟩ else place base) = Place.mk 0 stack ∧
      stack.length ≤ (place base).names.length := by
    split
    · exact ⟨[], rfl, Nat.zero_le _⟩
    · exact ⟨_, by rw [← (proper_place base).ups h], Nat.le_refl _⟩
  obtain ⟨ws, m, hfold, hws⟩ := exists_foldl_step cs (stack.drop n)
  refine ⟨ws, (stack.drop n).drop m, ?_, hws, ?_⟩
  · rw [place_append_absolute h, hstack, hparts, List.foldl_append, foldl_step_drop, hfold]
  · simp only [List.length_drop]
    omega

/-! ### Normal paths -/

theorem parts_render (h : spot.Proper false) :
    parts (render (spot.components false)) = spot.components false := by
  have hname : ∀ xs : List Text, (∀ x ∈ xs, IsName x) → xs.flatMap parts = xs.map .name := by
    intro xs hxs
    induction xs with
    | nil => rfl
    | cons x xs ih =>
      rw [List.flatMap_cons, parts_of_isName (hxs x (by simp)), ih fun y hy => hxs y (by simp [hy])]
      rfl
  have hnames := hname spot.names.reverse fun x hx => h.name x (List.mem_reverse.1 hx)
  rw [render_components h]
  simp only [Bool.false_eq_true, if_false, List.nil_append, parts_join, Place.pieces,
    List.flatMap_append, hnames, Place.components]
  simp [List.flatMap_replicate, show parts ['.', '.'] = [.up] from rfl]

theorem isAbsolute_render (h : spot.Proper absolute) :
    isAbsolute (render (spot.components absolute)) = absolute := by
  rw [render_components h]
  cases absolute with
  | true => rfl
  | false =>
    cases hpieces : spot.pieces with
    | nil => rfl
    | cons x xs =>
      obtain ⟨hx, -, hslash⟩ := h.piece x (by simp [hpieces])
      rw [if_neg (by simp), List.nil_append, isAbsolute_join hx, isAbsolute_of_no_slash hslash]

/-- The components of a place lead there. -/
theorem foldl_step_components (h : absolute = true → spot.ups = 0) :
    (spot.components absolute).foldl (Place.step absolute) ⟨0, []⟩ = spot := by
  obtain ⟨ups, ns⟩ := spot
  rw [Place.components, List.foldl_append, List.foldl_append]
  cases absolute with
  | true =>
    obtain rfl : ups = 0 := h rfl
    have hnames := @foldl_step_names true 0 ns.reverse []
    simpa [Place.step] using hnames
  | false =>
    have hups := foldl_step_ups ups 0
    simp only [Bool.false_eq_true, if_false, List.foldl_nil, hups, foldl_step_names]
    simp

theorem place_render (h : spot.Proper absolute) :
    place (render (spot.components absolute)) = spot := by
  rw [place, components_render h, isAbsolute_render h, foldl_step_components h.ups]

@[simp] theorem isAbsolute_normalize (p : Path) : isAbsolute (normalize p) = isAbsolute p :=
  isAbsolute_render (proper_place p)

@[simp] theorem place_normalize (p : Path) : place (normalize p) = place p :=
  place_render (proper_place p)

theorem normalize_normalize (p : Path) : normalize (normalize p) = normalize p := by
  rw [normalize, place_normalize, isAbsolute_normalize, normalize]

/-- A normal path is determined by where it starts and the place it leads to. -/
theorem normalize_eq_iff : normalize p = normalize q ↔
    isAbsolute p = isAbsolute q ∧ place p = place q := by
  constructor
  · intro h
    rw [← isAbsolute_normalize, ← place_normalize, h, isAbsolute_normalize, place_normalize]
    exact ⟨rfl, rfl⟩
  · rintro ⟨habsolute, hplace⟩
    rw [normalize, habsolute, hplace, normalize]

theorem ups_place (h : isAbsolute p = true) : (place p).ups = 0 := (proper_place p).ups h

theorem names_normalize (h : isAbsolute p = true) : names (normalize p) = (place p).names.reverse := by
  rw [normalize, names_render (proper_place p), Place.pieces, ups_place h]
  rfl

theorem isName_of_mem_names (h : isAbsolute p = true) (hx : x ∈ names (normalize p)) : IsName x := by
  rw [names_normalize h, List.mem_reverse] at hx
  exact (proper_place p).name x hx

theorem place_absolute (h : isAbsolute p = true) : place p = ⟨0, (names (normalize p)).reverse⟩ := by
  rw [names_normalize h, List.reverse_reverse, ← ups_place h]

theorem resolve_singleton (base segment : Path) :
    resolve base [segment] = normalize (append base segment) := by
  cases segment with
  | nil =>
    refine normalize_eq_iff.2 ⟨?_, ?_⟩
    · rw [isAbsolute_append]
      exact (Bool.or_false _).symm
    · rw [place_append base rfl]
      rfl
  | cons c segment => rfl

/-! ### Stages -/

theorem normalize_append_congr (h : normalize p = normalize q) (segment : Path) :
    normalize (append p segment) = normalize (append q segment) := by
  obtain ⟨habsolute, hplace⟩ := normalize_eq_iff.1 h
  refine normalize_eq_iff.2 ⟨by rw [isAbsolute_append, isAbsolute_append, habsolute], ?_⟩
  cases hsegment : isAbsolute segment with
  | true => rw [append_absolute _ hsegment, append_absolute _ hsegment]
  | false => rw [place_append _ hsegment, place_append _ hsegment, habsolute, hplace]

theorem normalize_foldl_append_congr (h : normalize p = normalize q) (segments : List Path) :
    normalize (segments.foldl append p) = normalize (segments.foldl append q) := by
  induction segments generalizing p q with
  | nil => exact h
  | cons segment segments ih => exact ih (normalize_append_congr h segment)

/-- Segments can be taken in stages, each from the normal form of what the one before came to. -/
theorem resolve_append (base : Path) (segments further : List Path) :
    resolve base (segments ++ further) = resolve (resolve base segments) further := by
  rw [resolve, List.filter_append, List.foldl_append]
  exact normalize_foldl_append_congr (normalize_normalize _).symm _

theorem resolve_normalize (base segment : Path) :
    resolve (normalize base) [segment] = resolve base [segment] := by
  rw [resolve_singleton, resolve_singleton, normalize_append_congr (normalize_normalize base)]

/-! ### Absolute paths -/

theorem isAbsolute_foldl_append (h : isAbsolute base = true) (segments : List Path) :
    isAbsolute (segments.foldl append base) = true := by
  induction segments generalizing base with
  | nil => exact h
  | cons segment segments ih => exact ih (by rw [isAbsolute_append, h, Bool.true_or])

theorem isAbsolute_resolve (h : isAbsolute base = true) (segments : List Path) :
    isAbsolute (resolve base segments) = true := by
  rw [resolve, isAbsolute_normalize]
  exact isAbsolute_foldl_append h _

theorem normalize_resolve (base : Path) (segments : List Path) :
    normalize (resolve base segments) = resolve base segments :=
  normalize_normalize _

end ModulePack.Path
