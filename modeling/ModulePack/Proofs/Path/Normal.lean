import ModulePack.Proofs.Path.Pieces

/-!
# Normal paths

What `normalize` writes are the components of a place: steps up, none of them in an absolute path,
and then names. They are read back as they were written (`components_render`), so that the parent
of such a path is the place without its last name (`parent?_render`).
-/

namespace ModulePack.Path

variable {p : Path} {x : Text} {xs : List Text} {absolute : Bool} {spot : Place}

/-! ### Pieces with slashes between them -/

theorem names_slash (p : Path) : names ('/' :: p) = names p := names_append_slash [] p

theorem pieces_join (h : ∀ x ∈ xs, '/' ∉ x) (hne : xs ≠ []) : pieces (Text.join ['/'] xs) = xs := by
  induction xs with
  | nil => exact absurd rfl hne
  | cons x xs ih =>
    by_cases hxs : xs = []
    · rw [hxs, Text.join_singleton, pieces_of_no_slash (h x (by simp))]
    · rw [Text.join_cons hxs, List.append_assoc, List.singleton_append, pieces_append_slash,
        pieces_of_no_slash (h x (by simp)), ih (fun y hy => h y (by simp [hy])) hxs]
      rfl

theorem names_join (h : ∀ x ∈ xs, x ≠ [] ∧ '/' ∉ x) : names (Text.join ['/'] xs) = xs := by
  by_cases hxs : xs = []
  · rw [hxs]; rfl
  · rw [names, pieces_join (fun x hx => (h x hx).2) hxs, List.filter_eq_self]
    exact fun x hx => by simpa using (h x hx).1

theorem exists_join_concat (xs : List Text) (x : Text) :
    ∃ before, Text.join ['/'] (xs ++ [x]) = before ++ x := by
  induction xs with
  | nil => exact ⟨[], rfl⟩
  | cons y xs ih =>
    obtain ⟨before, h⟩ := ih
    refine ⟨y ++ ['/'] ++ before, ?_⟩
    rw [List.cons_append, Text.join_cons (by simp), h]
    simp

theorem isAbsolute_join (hx : x ≠ []) (xs : List Text) :
    isAbsolute (Text.join ['/'] (x :: xs)) = isAbsolute x := by
  obtain ⟨c, y, rfl⟩ := List.exists_cons_of_ne_nil hx
  cases xs <;> rfl

theorem isAbsolute_join_names (h : ∀ x ∈ xs, x ≠ [] ∧ '/' ∉ x) :
    isAbsolute (Text.join ['/'] xs) = false := by
  cases xs with
  | nil => rfl
  | cons x xs =>
    obtain ⟨hne, hslash⟩ := h x (by simp)
    rw [isAbsolute_join hne, isAbsolute_of_no_slash hslash]

/-- Names appended one by one are appended with slashes between them. -/
theorem foldl_append_names (p : Path) (h : ∀ x ∈ xs, x ≠ [] ∧ '/' ∉ x) (hne : xs ≠ []) :
    xs.foldl append p = append p (Text.join ['/'] xs) := by
  induction xs generalizing p with
  | nil => exact absurd rfl hne
  | cons x xs ih =>
    by_cases hxs : xs = []
    · rw [hxs]
      rfl
    · have hrest : ∀ y ∈ xs, y ≠ [] ∧ '/' ∉ y := fun y hy => h y (by simp [hy])
      obtain ⟨hx, hslash⟩ := h x (by simp)
      rw [List.foldl_cons, ih _ hrest hxs,
        append_append_name p hx hslash (isAbsolute_join_names hrest), Text.join_cons hxs,
        List.append_assoc, List.singleton_append]

/-! ### Places -/

/-- A place that a path can lead to: by proper names, and with no steps up from the root. -/
structure Place.Proper (absolute : Bool) (spot : Place) : Prop where
  name : ∀ x ∈ spot.names, IsName x
  ups : absolute = true → spot.ups = 0

/-- The pieces of a place as they are written. -/
def Place.pieces (spot : Place) : List Text :=
  List.replicate spot.ups ['.', '.'] ++ spot.names.reverse

theorem Place.Proper.of_cons {ups : Nat} {ns : List Text}
    (h : Place.Proper absolute ⟨ups, x :: ns⟩) : Place.Proper absolute ⟨ups, ns⟩ :=
  ⟨fun y hy => h.name y (by simp [hy]), h.ups⟩

theorem Place.Proper.piece (h : spot.Proper absolute) :
    ∀ x ∈ spot.pieces, x ≠ [] ∧ x ≠ ['.'] ∧ '/' ∉ x := by
  intro x hx
  rcases List.mem_append.1 hx with hx | hx
  · rw [List.eq_of_mem_replicate hx]
    decide
  · have hname := h.name x (by simpa using hx)
    exact ⟨hname.ne_nil, hname.ne_here, hname.no_slash⟩

theorem render_components (h : spot.Proper absolute) :
    render (spot.components absolute) =
      (if absolute then ['/'] else []) ++ Text.join ['/'] spot.pieces := by
  have htext : (List.replicate spot.ups Component.up ++
      spot.names.reverse.map Component.name).map Component.text = spot.pieces := by
    simp [Place.pieces, Component.text, Function.comp_def]
  cases absolute with
  | true =>
    rw [Place.components, if_pos rfl, List.append_assoc, List.singleton_append, render, htext]
    rfl
  | false =>
    simp only [Place.components, Bool.false_eq_true, if_false, List.nil_append]
    rw [render, htext]
    intro rest hroot
    cases hups : spot.ups with
    | zero =>
      cases hnames : spot.names.reverse <;> simp [hups, hnames] at hroot
    | succ n => simp [hups, List.replicate_succ] at hroot

theorem names_render (h : spot.Proper absolute) :
    names (render (spot.components absolute)) = spot.pieces := by
  have hjoin := names_join fun x hx => ⟨(h.piece x hx).1, (h.piece x hx).2.2⟩
  rw [render_components h]
  cases absolute
  · exact hjoin
  · exact (names_slash _).trans hjoin

theorem names_render_cons {ups : Nat} {x : Text} {ns : List Text}
    (h : Place.Proper absolute ⟨ups, x :: ns⟩) :
    names (render (Place.components absolute ⟨ups, x :: ns⟩)) =
      names (render (Place.components absolute ⟨ups, ns⟩)) ++ [x] := by
  rw [names_render h, names_render h.of_cons]
  simp [Place.pieces]

theorem ofPiece?_of_isName (h : IsName x) : Component.ofPiece? x = some (.name x) := by
  unfold Component.ofPiece?
  split
  · exact absurd rfl h.ne_nil
  · exact absurd rfl h.ne_here
  · exact absurd rfl h.ne_up
  · rfl

theorem filterMap_pieces (h : spot.Proper absolute) :
    spot.pieces.filterMap Component.ofPiece? =
      List.replicate spot.ups .up ++ spot.names.reverse.map .name := by
  have hnames : ∀ ns : List Text, (∀ x ∈ ns, IsName x) →
      ns.filterMap Component.ofPiece? = ns.map .name := by
    intro ns hns
    induction ns with
    | nil => rfl
    | cons y ns ih =>
      rw [List.filterMap_cons, ofPiece?_of_isName (hns y (by simp)),
        ih fun z hz => hns z (by simp [hz])]
      rfl
  have hups : ∀ n, (List.replicate n ['.', '.']).filterMap Component.ofPiece? =
      List.replicate n Component.up := by
    intro n
    induction n with
    | zero => rfl
    | succ n ih => rw [List.replicate_succ, List.filterMap_cons, ih]; rfl
  rw [Place.pieces, List.filterMap_append, hups,
    hnames spot.names.reverse fun x hx => h.name x (by simpa using hx)]

theorem components_render (h : spot.Proper absolute) :
    components (render (spot.components absolute)) = spot.components absolute := by
  rw [render_components h]
  cases absolute with
  | true =>
    have hpieces : pieces (['/'] ++ Text.join ['/'] spot.pieces) =
        [] :: pieces (Text.join ['/'] spot.pieces) := pieces_append_slash [] _
    rw [if_pos rfl, components, hpieces]
    simp only [List.singleton_append, reduceCtorEq, if_false]
    rw [Place.components, if_pos rfl, List.append_assoc, List.singleton_append, ← filterMap_pieces h]
    by_cases hne : spot.pieces = []
    · rw [hne]; rfl
    · rw [pieces_join (fun x hx => (h.piece x hx).2.2) hne]
  | false =>
    rw [if_neg (by simp), List.nil_append, Place.components, if_neg (by simp), List.nil_append,
      ← filterMap_pieces h, components]
    cases hps : spot.pieces with
    | nil => rfl
    | cons first rest =>
      have hpiece := h.piece
      rw [hps] at hpiece
      rw [pieces_join (fun x hx => (hpiece x hx).2.2) (by simp)]
      split
      · rename_i heq; cases heq
      · rename_i heq
        cases heq
        exact absurd rfl (hpiece [] (by simp)).1
      · rename_i heq
        cases heq
        exact absurd rfl (hpiece ['.'] (by simp)).2.1
      · rename_i heq
        cases heq
        rfl

theorem parent?_render {ups : Nat} {ns : List Text} (h : Place.Proper absolute ⟨ups, x :: ns⟩) :
    parent? (render (Place.components absolute ⟨ups, x :: ns⟩)) =
      some (render (Place.components absolute ⟨ups, ns⟩)) := by
  have hlast : (Place.components absolute ⟨ups, x :: ns⟩).reverse =
      .name x :: (Place.components absolute ⟨ups, ns⟩).reverse := by
    simp [Place.components]
  rw [parent?, components_render h, hlast]
  simp

/-- Above steps up alone there are fewer of them; above none there is nothing. -/
theorem parent?_render_ups {ups : Nat} (h : Place.Proper absolute ⟨ups, []⟩) :
    parent? (render (Place.components absolute ⟨ups, []⟩)) = none ∨
      ∃ above, parent? (render (Place.components absolute ⟨ups, []⟩)) =
        some (render (Place.components absolute ⟨above, []⟩)) ∧ Place.Proper absolute ⟨above, []⟩ := by
  rw [parent?, components_render h]
  cases absolute with
  | true =>
    obtain rfl : ups = 0 := h.ups rfl
    exact .inl rfl
  | false =>
    cases ups with
    | zero => exact .inl rfl
    | succ ups =>
      refine .inr ⟨ups, ?_, ⟨by simp, by simp⟩⟩
      have hlast : (Place.components false ⟨ups + 1, []⟩).reverse =
          .up :: (Place.components false ⟨ups, []⟩).reverse := by
        simp [Place.components, List.replicate_succ']
      rw [hlast]
      simp

/-! ### Normal paths -/

theorem isName_of_ofPiece? {piece : Text} (hslash : '/' ∉ piece)
    (h : Component.ofPiece? piece = some (.name x)) : IsName x := by
  unfold Component.ofPiece? at h
  split at h
  · cases h
  · cases h
  · cases h
  · rename_i h₁ h₂ h₃
    cases h
    exact ⟨h₁, h₂, h₃, hslash⟩

theorem isName_of_mem_components (h : .name x ∈ components p) : IsName x := by
  have hpiece : ∀ piece ∈ pieces p, '/' ∉ piece := fun _ => not_mem_of_mem_pieces
  have hmem : ∀ ps : List Text, (∀ piece ∈ ps, '/' ∉ piece) →
      .name x ∈ ps.filterMap Component.ofPiece? → IsName x := by
    intro ps hps h
    obtain ⟨piece, hin, hname⟩ := List.mem_filterMap.1 h
    exact isName_of_ofPiece? (hps piece hin) hname
  unfold components at h
  split at h
  · cases h
  · rename_i rest heq
    rw [heq] at hpiece
    split at h
    · cases h
    · exact hmem rest (fun piece hin => hpiece piece (by simp [hin])) (by simpa using h)
  · rename_i rest heq
    rw [heq] at hpiece
    exact hmem rest (fun piece hin => hpiece piece (by simp [hin])) (by simpa using h)
  · rename_i first rest _ _ heq
    rw [heq] at hpiece
    exact hmem _ hpiece h

theorem proper_step (h : spot.Proper absolute) {c : Component} (hc : ∀ x, c = .name x → IsName x) :
    (spot.step absolute c).Proper absolute := by
  cases c with
  | root => exact h
  | here => exact h
  | name x =>
    refine ⟨fun y hy => ?_, h.ups⟩
    rcases List.mem_cons.1 hy with rfl | hy
    · exact hc y rfl
    · exact h.name y hy
  | up =>
    obtain ⟨ups, ns⟩ := spot
    cases ns with
    | cons y ns => exact h.of_cons
    | nil =>
      cases absolute with
      | true => exact h
      | false => exact ⟨by simp [Place.step], by simp⟩

theorem proper_place (p : Path) : (place p).Proper (isAbsolute p) := by
  have hfold : ∀ (cs : List Component) (spot : Place), (∀ x, .name x ∈ cs → IsName x) →
      spot.Proper (isAbsolute p) →
      (cs.foldl (Place.step (isAbsolute p)) spot).Proper (isAbsolute p) := by
    intro cs
    induction cs with
    | nil => exact fun _ _ h => h
    | cons c cs ih =>
      intro spot hcs h
      exact ih _ (fun x hx => hcs x (by simp [hx])) (proper_step h fun x hx => hcs x (by simp [hx]))
  exact hfold _ _ (fun x => isName_of_mem_components) ⟨by simp, by simp⟩

/-- A normal path is a proper place, written. -/
theorem exists_place_normalize (p : Path) : ∃ (absolute : Bool) (spot : Place),
    spot.Proper absolute ∧ normalize p = render (spot.components absolute) :=
  ⟨isAbsolute p, place p, proper_place p, rfl⟩

end ModulePack.Path
