import ModulePack.Path.Relative
import ModulePack.Proofs.Path.Resolve

/-!
# Ways between absolute places

Between two normal absolute paths there is always a way (`relative?_normalize`): a step up for each
name of the start past the names that both share, then the names of the target past these
(`beyond`). Resolved from the start, the way leads to the target again (`resolve_way`).
-/

namespace ModulePack.Path

variable {x : Text} {xs ys target start : List Text} {p q : Path}

/-- The names of a place past those that it shares with another from the root on. -/
def beyond : (target start : List Text) → List Text
  | a :: target, b :: start => if a = b then beyond target start else a :: target
  | target, _ => target

theorem exists_shared (target start : List Text) :
    ∃ shared, target = shared ++ beyond target start ∧ start = shared ++ beyond start target := by
  induction target generalizing start with
  | nil => exact ⟨[], rfl, by cases start <;> rfl⟩
  | cons a target ih =>
    cases start with
    | nil => exact ⟨[], rfl, rfl⟩
    | cons b start =>
      by_cases h : a = b
      · obtain ⟨shared, htarget, hstart⟩ := ih start
        refine ⟨a :: shared, ?_, ?_⟩
        · rw [beyond, if_pos h, List.cons_append, ← htarget]
        · rw [beyond, if_pos h.symm, List.cons_append, ← hstart, h]
      · exact ⟨[], by rw [beyond, if_neg h]; rfl, by rw [beyond, if_neg (Ne.symm h)]; rfl⟩

/-- The names past the shared ones begin with different ones. -/
theorem beyond_ne_cons {us vs : List Text} (h : beyond target start = x :: us) :
    beyond start target ≠ x :: vs := by
  induction target generalizing start with
  | nil => cases h
  | cons a target ih =>
    cases start with
    | nil => simp [beyond]
    | cons b start =>
      by_cases hab : a = b
      · rw [beyond, if_pos hab] at h
        rw [beyond, if_pos hab.symm]
        exact ih h
      · rw [beyond, if_neg hab] at h
        rw [beyond, if_neg (Ne.symm hab)]
        rintro heq
        exact hab ((List.cons.inj h).1.trans (List.cons.inj heq).1.symm)

theorem mem_of_mem_beyond (h : x ∈ beyond target start) : x ∈ target := by
  obtain ⟨shared, htarget, -⟩ := exists_shared target start
  rw [htarget]
  exact List.mem_append_right _ h

/-- The place seen from `start`: as many steps up as there are names past the shared ones. -/
def way (target start : List Text) : Place :=
  ⟨(beyond start target).length, (beyond target start).reverse⟩

theorem wayTo_nil (apart : Bool) (start : List Component) :
    wayTo apart [] start = some (List.replicate start.length .up) := by
  induction start generalizing apart with
  | nil => rw [wayTo]; rfl
  | cons b start ih =>
    rw [wayTo, ih]
    rfl

theorem wayTo_names (target start : List Text) :
    wayTo false (target.map .name) (start.map .name) =
      some ((way target start).components false) := by
  have hcomponents (target start : List Text) : (way target start).components false =
      List.replicate (beyond start target).length .up ++ (beyond target start).map .name := by
    simp [way, Place.components]
  rw [hcomponents]
  induction target generalizing start with
  | nil =>
    have hstart : beyond start [] = start := by cases start <;> rfl
    rw [List.map_nil, wayTo_nil, hstart]
    simp [beyond]
  | cons a target ih =>
    cases start with
    | nil => simp [wayTo, beyond]
    | cons b start =>
      rw [List.map_cons, List.map_cons, wayTo]
      by_cases h : a = b
      · simp [h, ih, beyond]
      · simp [h, Ne.symm h, beyond, List.replicate_succ, Function.comp_def]

theorem proper_way (h : ∀ x ∈ target, IsName x) (start : List Text) :
    (way target start).Proper false :=
  ⟨fun x hx => h x (mem_of_mem_beyond (List.mem_reverse.1 hx)), by simp⟩

/-- From the start, the way leads through the shared names to the target. -/
theorem foldl_step_way (target start : List Text) :
    ((way target start).components false).foldl (Place.step true) ⟨0, start.reverse⟩ =
      ⟨0, target.reverse⟩ := by
  obtain ⟨shared, htarget, hstart⟩ := exists_shared target start
  have hdrop : start.reverse.drop (beyond start target).length = shared.reverse := by
    rw [congrArg List.reverse hstart, List.reverse_append]
    exact List.drop_left' (List.length_reverse ..)
  have hnames : (beyond target start).reverse ++ shared.reverse = target.reverse := by
    rw [← List.reverse_append, ← htarget]
  simp only [way, Place.components, Bool.false_eq_true, if_false, List.nil_append, List.foldl_append,
    foldl_step_drop, hdrop, foldl_step_names, List.reverse_reverse, hnames]

theorem components_normalize_absolute (h : isAbsolute p = true) :
    components (normalize p) = .root :: (names (normalize p)).map .name := by
  rw [normalize, components_render (proper_place p), ← normalize, names_normalize h,
    Place.components, ups_place h, h]
  rfl

theorem relative?_normalize (hp : isAbsolute p = true) (hq : isAbsolute q = true) :
    relative? (normalize p) (normalize q) =
      some (render ((way (names (normalize q)) (names (normalize p))).components false)) := by
  rw [relative?, isAbsolute_normalize, isAbsolute_normalize, hp, hq, if_pos rfl,
    components_normalize_absolute hp, components_normalize_absolute hq, wayTo]
  simp [wayTo_names]

theorem resolve_way (hp : isAbsolute p = true) (hq : isAbsolute q = true) :
    resolve (normalize p) [render ((way (names (normalize q)) (names (normalize p))).components false)] =
      normalize q := by
  have hway := proper_way (fun x => isName_of_mem_names hq) (names (normalize p))
  rw [resolve_singleton, normalize_eq_iff]
  constructor
  · rw [isAbsolute_append, isAbsolute_normalize, hp, hq, Bool.true_or]
  · rw [place_append _ (isAbsolute_render hway), parts_render hway, isAbsolute_normalize, hp,
      place_normalize, place_absolute hp, foldl_step_way, place_absolute hq]

end ModulePack.Path
