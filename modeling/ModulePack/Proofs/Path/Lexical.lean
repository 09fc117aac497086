import ModulePack.Proofs.Path.Resolve

/-!
# Lexical normal form

A normal path has no `.`, and `..` only in front of a relative path (`IsNormal`); such a path is
left as it is (`IsNormal.components_normalize`). `place` counts the steps up apart from the names.
There are two more ways of reading components, and both come to the same as `normalize`: on a stack
that holds what is left of them (`stackStep`), and on the path as it is written so far, with a count
of the names that may be taken off its end (`bufferStep`).
-/

namespace ModulePack.Path

variable {p : Path} {x : Text} {xs : List Text} {cs : List Component} {absolute : Bool}
  {spot : Place}

/-! ### Components -/

theorem up_or_name_of_mem_parts {c : Component} (h : c ∈ parts p) : c = .up ∨ ∃ x, c = .name x := by
  obtain ⟨piece, -, hc⟩ := List.mem_filterMap.1 h
  cases c with
  | up => exact .inl rfl
  | name x => exact .inr ⟨x, rfl⟩
  | root | here =>
    unfold Component.ofPiece? at hc
    split at hc <;> cases hc

theorem components_absolute (h : isAbsolute p = true) : components p = .root :: parts p := by
  obtain ⟨q, rfl⟩ : ∃ q, p = '/' :: q := by
    cases p with
    | nil => cases h
    | cons c q => exact ⟨q, by rw [show c = '/' by simpa [isAbsolute] using h]⟩
  have hpieces : pieces ('/' :: q) = [] :: pieces q := pieces_append_slash [] q
  rw [components, parts, hpieces]
  rfl

theorem components_relative (h : isAbsolute p = false) :
    components p = parts p ∨ components p = .here :: parts p := by
  cases p with
  | nil => exact .inl rfl
  | cons c q =>
    have hc : c ≠ '/' := by simpa [isAbsolute] using h
    obtain ⟨piece, rest, hpieces⟩ := List.exists_cons_of_ne_nil (pieces_ne_nil q)
    rw [components, parts, pieces, hpieces]
    simp only [if_neg hc]
    split
    · rename_i heq
      cases heq
    · rename_i heq
      cases heq
    · rename_i heq
      rw [heq]
      exact .inr rfl
    · rename_i heq
      rw [heq]
      exact .inl rfl

/-! ### Normal form -/

/-- Steps up stand in front of everything else. -/
def UpsFirst (cs : List Component) : Prop :=
  ∀ before after, cs = before ++ .up :: after → ∀ c ∈ before, c = .up

theorem upsFirst_append (n : Nat) (xs : List Text) :
    UpsFirst (List.replicate n .up ++ xs.map .name) := by
  induction n with
  | zero =>
    intro before after heq
    have hmem : Component.up ∈ List.map Component.name xs := by
      rw [show List.map Component.name xs = before ++ .up :: after from heq]
      simp
    obtain ⟨x, -, hx⟩ := List.mem_map.1 hmem
    cases hx
  | succ n ih =>
    intro before after heq c hc
    cases before with
    | nil => cases hc
    | cons b before =>
      obtain ⟨rfl, htail⟩ := List.cons.inj heq
      rcases List.mem_cons.1 hc with rfl | hc
      · rfl
      · exact ih before after htail c hc

theorem UpsFirst.exists_eq (h : UpsFirst cs) (hcs : ∀ c ∈ cs, c = .up ∨ ∃ x, c = .name x) :
    ∃ (n : Nat) (xs : List Text), cs = List.replicate n .up ++ xs.map .name := by
  induction cs with
  | nil => exact ⟨0, [], rfl⟩
  | cons c cs ih =>
    have htail : UpsFirst cs := by
      rintro before after rfl d hd
      exact h (c :: before) after rfl d (List.mem_cons_of_mem _ hd)
    obtain ⟨n, xs, rfl⟩ := ih htail fun d hd => hcs d (List.mem_cons_of_mem _ hd)
    rcases hcs c List.mem_cons_self with rfl | ⟨x, rfl⟩
    · exact ⟨n + 1, xs, rfl⟩
    · cases n with
      | zero => exact ⟨0, x :: xs, rfl⟩
      | succ n => cases h [.name x] _ rfl (.name x) (by simp)

/-- No `.`, and `..` only in front of a relative path. -/
structure IsNormal (p : Path) : Prop where
  no_here : .here ∉ components p
  no_up : isAbsolute p = true → .up ∉ components p
  ups_first : UpsFirst (components p)

theorem isNormal_normalize (p : Path) : IsNormal (normalize p) := by
  have hcomponents : components (normalize p) = (place p).components (isAbsolute p) :=
    components_render (proper_place p)
  have hup : isAbsolute p = true → .up ∉ (place p).components (isAbsolute p) := by
    intro h
    simp [Place.components, h, ups_place h]
  refine ⟨?_, ?_, ?_⟩
  · rw [hcomponents]
    cases isAbsolute p <;> simp [Place.components]
  · rwa [isAbsolute_normalize, hcomponents]
  · rw [hcomponents]
    cases h : isAbsolute p with
    | true =>
      intro before after heq
      rw [h] at hup
      exact absurd (heq ▸ by simp) (hup rfl)
    | false =>
      rw [Place.components, if_neg (by simp), List.nil_append]
      exact upsFirst_append _ _

/-- The components of a normal path are those of the place that it leads to. -/
theorem IsNormal.components_eq (h : IsNormal p) :
    components p = (place p).components (isAbsolute p) := by
  obtain ⟨spot, hups, heq⟩ : ∃ spot : Place, (isAbsolute p = true → spot.ups = 0) ∧
      components p = spot.components (isAbsolute p) := by
    cases hp : isAbsolute p with
    | true =>
      have hcomponents := components_absolute hp
      have hfirst : UpsFirst (parts p) := by
        intro before after heq
        exact absurd (by simp [hcomponents, heq]) (h.no_up hp)
      obtain ⟨n, xs, hparts⟩ := hfirst.exists_eq fun _ => up_or_name_of_mem_parts
      obtain rfl : n = 0 := by
        by_contra hn
        exact h.no_up hp (by simp [hcomponents, hparts, hn])
      exact ⟨⟨0, xs.reverse⟩, fun _ => rfl, by simp [hcomponents, hparts, Place.components]⟩
    | false =>
      have hcomponents : components p = parts p := (components_relative hp).resolve_right
        fun heq => h.no_here (by simp [heq])
      have hfirst := h.ups_first
      rw [hcomponents] at hfirst
      obtain ⟨n, xs, hparts⟩ := hfirst.exists_eq fun _ => up_or_name_of_mem_parts
      exact ⟨⟨n, xs.reverse⟩, by simp, by simp [hcomponents, hparts, Place.components]⟩
  rw [place, heq, foldl_step_components hups]

/-- A normal path has the components of its normal form. -/
theorem IsNormal.components_normalize (h : IsNormal p) : components (normalize p) = components p :=
  (components_render (proper_place p)).trans h.components_eq.symm

/-! ### Machines that read components -/

/-- A machine that follows each step of a place, as it is viewed, comes to the place of the path. -/
theorem foldl_components {σ : Type} {f : σ → Component → σ} {start : σ} (view : Place → σ)
    (habsolute : isAbsolute p = true → f start .root = view ⟨0, []⟩)
    (hrelative : isAbsolute p = false → start = view ⟨0, []⟩)
    (hstep : ∀ spot c, spot.Proper (isAbsolute p) → c ≠ .root → (∀ x, c = .name x → IsName x) →
      f (view spot) c = view (spot.step (isAbsolute p) c)) :
    (components p).foldl f start = view (place p) := by
  have hfold : ∀ (cs : List Component) (spot : Place), spot.Proper (isAbsolute p) →
      (∀ c ∈ cs, c ≠ .root ∧ ∀ x, c = .name x → IsName x) →
      cs.foldl f (view spot) = view (cs.foldl (Place.step (isAbsolute p)) spot) := by
    intro cs
    induction cs with
    | nil => exact fun _ _ _ => rfl
    | cons c cs ih =>
      intro spot hspot hcs
      obtain ⟨hroot, hname⟩ := hcs c List.mem_cons_self
      rw [List.foldl_cons, List.foldl_cons, hstep spot c hspot hroot hname]
      exact ih _ (proper_step hspot hname) fun d hd => hcs d (List.mem_cons_of_mem _ hd)
  have hparts : ∀ c ∈ parts p, c ≠ .root := by
    intro c hc
    rcases up_or_name_of_mem_parts hc with rfl | ⟨x, rfl⟩ <;> simp
  have hname : ∀ c ∈ components p, ∀ x, c = .name x → IsName x := by
    rintro _ hc x rfl
    exact isName_of_mem_components hc
  have hproper : Place.Proper (isAbsolute p) ⟨0, []⟩ := ⟨by simp, fun _ => rfl⟩
  cases hp : isAbsolute p with
  | true =>
    have hcomponents := components_absolute hp
    rw [hcomponents] at hname
    rw [place_eq, hcomponents, List.foldl_cons, habsolute hp]
    exact hfold _ _ hproper fun c hc => ⟨hparts c hc, hname c (List.mem_cons_of_mem _ hc)⟩
  | false =>
    rw [hrelative hp, place]
    refine hfold _ _ hproper fun c hc => ⟨?_, hname c hc⟩
    rcases components_relative hp with h | h
    · exact hparts c (h ▸ hc)
    · rw [h] at hc
      rcases List.mem_cons.1 hc with rfl | hc
      · simp
      · exact hparts c hc

/-- One more component on a stack: a step up takes the name on top away, it is left out above the
root, and else it stays. -/
def stackStep : List Component → Component → List Component
  | stack, .here => stack
  | .name _ :: stack, .up => stack
  | .root :: stack, .up => .root :: stack
  | stack, c => c :: stack

/-- One more component written behind a path, with a count of the names that may be taken off its
end. -/
def bufferStep (absolute : Bool) : Path × Nat → Component → Path × Nat
  | (buffer, depth), .root => (append buffer ['/'], depth)
  | (buffer, depth), .here => (buffer, depth)
  | (buffer, depth), .name x => (append buffer x, depth + 1)
  | (buffer, depth + 1), .up => ((parent? buffer).getD buffer, depth)
  | (buffer, 0), .up => (if absolute then buffer else append buffer ['.', '.'], 0)

theorem stackStep_place (hspot : spot.Proper absolute) {c : Component} (hc : c ≠ .root) :
    stackStep (spot.components absolute).reverse c =
      ((spot.step absolute c).components absolute).reverse := by
  obtain ⟨ups, ns⟩ := spot
  cases c with
  | root => exact absurd rfl hc
  | here => rfl
  | name x => simp [stackStep, Place.step, Place.components]
  | up =>
    cases ns with
    | cons x ns => simp [stackStep, Place.step, Place.components]
    | nil =>
      cases absolute with
      | true =>
        obtain rfl : ups = 0 := hspot.ups rfl
        rfl
      | false =>
        have hstack : stackStep (List.replicate ups .up) .up = List.replicate (ups + 1) .up := by
          cases ups <;> rfl
        simpa [Place.step, Place.components] using hstack

theorem normalize_eq_stack (p : Path) :
    normalize p = render ((components p).foldl stackStep []).reverse := by
  have hplace : (components p).foldl stackStep [] =
      ((place p).components (isAbsolute p)).reverse :=
    foldl_components (fun spot => (spot.components (isAbsolute p)).reverse)
      (fun h => by rw [h]; rfl) (fun h => by rw [h]; rfl)
      fun spot c hspot hc _ => stackStep_place hspot hc
  rw [hplace, List.reverse_reverse, normalize]

theorem join_concat (hne : xs ≠ []) (x : Text) :
    Text.join ['/'] (xs ++ [x]) = Text.join ['/'] xs ++ '/' :: x := by
  induction xs with
  | nil => exact absurd rfl hne
  | cons y xs ih =>
    by_cases hxs : xs = []
    · simp [hxs, Text.join]
    · rw [List.cons_append, Text.join_cons (by simp), Text.join_cons hxs, ih hxs]
      simp

/-- A path of pieces has no slash at its end, unless it is the root. -/
theorem append_join (h : ∀ y ∈ xs, y ≠ [] ∧ '/' ∉ y) (hx : '/' ∉ x) :
    append ((if absolute then ['/'] else []) ++ Text.join ['/'] xs) x =
      (if absolute then ['/'] else []) ++ Text.join ['/'] (xs ++ [x]) := by
  rcases List.eq_nil_or_concat' xs with rfl | ⟨before, y, rfl⟩
  · cases absolute <;> simp [append, isAbsolute_of_no_slash hx]
  · obtain ⟨hy, hslash⟩ := h y (by simp)
    obtain ⟨z, c, rfl⟩ := (List.eq_nil_or_concat' y).resolve_left hy
    have hc : c ≠ '/' := by
      rintro rfl
      simp at hslash
    obtain ⟨front, hfront⟩ := exists_join_concat before (z ++ [c])
    have hne : before ++ [z ++ [c]] ≠ [] := by simp
    rw [join_concat hne, hfront, append, isAbsolute_of_no_slash hx]
    simp [hc]

theorem bufferStep_place (hspot : spot.Proper absolute) {c : Component} (hc : c ≠ .root)
    (hname : ∀ x, c = .name x → IsName x) :
    bufferStep absolute (render (spot.components absolute), spot.names.length) c =
      (render ((spot.step absolute c).components absolute),
        (spot.step absolute c).names.length) := by
  obtain ⟨ups, ns⟩ := spot
  have hpieces : ∀ y ∈ Place.pieces ⟨ups, ns⟩, y ≠ [] ∧ '/' ∉ y := fun y hy =>
    ⟨(hspot.piece y hy).1, (hspot.piece y hy).2.2⟩
  have hproper := proper_step hspot hname
  cases c with
  | root => exact absurd rfl hc
  | here => rfl
  | name x =>
    have hx := hname x rfl
    rw [bufferStep, render_components hspot, render_components hproper,
      append_join hpieces hx.no_slash]
    simp [Place.step, Place.pieces]
  | up =>
    cases ns with
    | cons x ns =>
      show ((parent? (render (Place.components absolute ⟨ups, x :: ns⟩))).getD _, ns.length) = _
      rw [parent?_render hspot]
      rfl
    | nil =>
      cases absolute with
      | true => rfl
      | false =>
        show (append (render (Place.components false ⟨ups, []⟩)) ['.', '.'], 0) = _
        rw [render_components hspot, render_components hproper, append_join hpieces (by decide)]
        simp [Place.step, Place.pieces, List.replicate_succ']

theorem normalize_eq_buffer (p : Path) :
    normalize p = ((components p).foldl (bufferStep (isAbsolute p)) ([], 0)).1 := by
  have hplace : (components p).foldl (bufferStep (isAbsolute p)) ([], 0) =
      (normalize p, (place p).names.length) :=
    foldl_components (fun spot => (render (spot.components (isAbsolute p)), spot.names.length))
      (fun h => by rw [h]; rfl) (fun h => by rw [h]; rfl)
      fun spot c hspot hc hname => bufferStep_place hspot hc hname
  rw [hplace]

/-- The normal form of a path, however it is computed: without dots but for steps up in front of a
relative path, as absolute as the path, and normal for good. -/
theorem normalize_lexical (p : Path) :
    IsNormal (normalize p) ∧ isAbsolute (normalize p) = isAbsolute p ∧
      normalize p = render ((components p).foldl stackStep []).reverse ∧
      normalize p = ((components p).foldl (bufferStep (isAbsolute p)) ([], 0)).1 ∧
      normalize (normalize p) = normalize p :=
  ⟨isNormal_normalize p, isAbsolute_normalize p, normalize_eq_stack p, normalize_eq_buffer p,
    normalize_normalize p⟩

end ModulePack.Path
