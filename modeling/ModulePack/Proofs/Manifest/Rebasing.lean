import Mathlib.Data.List.Forall2
import ModulePack.Proofs.Manifest.Dependencies
import ModulePack.Proofs.Path.Lexical

/-!
# How dependencies are rebased

Between two absolute paths there is always a way, up past the components that both share and down
again (`exists_isWay`), so that no local dependency has to be given by an absolute path. `rebaseAll`
puts it in the place of each local dependency, and leaves keys, order and all else as they are.
-/

namespace ModulePack

namespace Path

variable {p q : Path}

/-- A way from the directory `start` to `target`: a step up for each component of the start past the
longest beginning that both have in common, then the names of the target past it. -/
structure IsWay (start target route : Path) (shared past : List Component) (rest : List Text) :
    Prop where
  start_eq : components start = shared ++ past
  target_eq : components target = shared ++ rest.map .name
  longest : ∀ other, other <+: components start → other <+: components target → other <+: shared
  route_eq : components route = List.replicate past.length .up ++ rest.map .name
  leads : resolve start [route] = target

theorem prefix_of_ne_cons {α : Type} {shared us vs other : List α}
    (hne : ∀ a us' vs', us = a :: us' → vs ≠ a :: vs') (hus : other <+: shared ++ us)
    (hvs : other <+: shared ++ vs) : other <+: shared := by
  induction shared generalizing other with
  | nil =>
    cases other with
    | nil => exact List.prefix_refl _
    | cons a other =>
      obtain ⟨us', hus⟩ := hus
      obtain ⟨vs', hvs⟩ := hvs
      exact absurd hvs.symm (hne a _ _ hus.symm)
  | cons b shared ih =>
    cases other with
    | nil => exact List.nil_prefix
    | cons a other =>
      rw [List.cons_append, List.cons_prefix_cons] at hus hvs
      exact List.cons_prefix_cons.2 ⟨hus.1, ih hus.2 hvs.2⟩

theorem map_name_beyond_ne_cons {target start : List Text} {c : Component}
    {cs ds : List Component} (h : (beyond target start).map .name = c :: cs) :
    (beyond start target).map .name ≠ c :: ds := by
  intro h'
  obtain ⟨x, us, hus, rfl, -⟩ := List.map_eq_cons_iff.1 h
  obtain ⟨y, vs, hvs, hxy, -⟩ := List.map_eq_cons_iff.1 h'
  cases hxy
  exact beyond_ne_cons hus hvs

theorem exists_isWay (hp : isAbsolute p = true) (hnormal : IsNormal p) (hq : isAbsolute q = true) :
    ∃ route shared past rest, relative? p (normalize q) = some route ∧
      IsWay p (normalize q) route shared past rest := by
  have hrelative : relative? p (normalize q) = relative? (normalize p) (normalize q) := by
    rw [relative?, relative?, isAbsolute_normalize p, hnormal.components_normalize]
  obtain ⟨shared, htarget, hstart⟩ := exists_shared (names (normalize q)) (names (normalize p))
  have hp' : components p = (.root :: shared.map .name) ++
      (beyond (names (normalize p)) (names (normalize q))).map .name := by
    rw [← hnormal.components_normalize, components_normalize_absolute hp, List.cons_append,
      ← List.map_append, ← hstart]
  have hq' : components (normalize q) = (.root :: shared.map .name) ++
      (beyond (names (normalize q)) (names (normalize p))).map .name := by
    rw [components_normalize_absolute hq, List.cons_append, ← List.map_append, ← htarget]
  have hway := proper_way (fun x => isName_of_mem_names hq) (names (normalize p))
  refine ⟨_, _, _, _, hrelative.trans (relative?_normalize hp hq), hp', hq', ?_, ?_, ?_⟩
  · intro other hother hother'
    rw [hp'] at hother
    rw [hq'] at hother'
    exact prefix_of_ne_cons (fun _ _ _ => map_name_beyond_ne_cons) hother hother'
  · rw [components_render hway]
    simp [way, Place.components]
  · rw [← resolve_normalize, resolve_way hp hq]

end Path

open ModulePack.Path

namespace Dependencies

variable {source target : Path}

/-- A dependency, seen from `source`, and what becomes of it, seen from `target`. -/
inductive Rebased (source target : Path) : Json → Json → Prop
  | kept {spec : Json} (h : ∀ path, spec ≠ .string (marker ++ path)) :
      Rebased source target spec spec
  /-- A local dependency is given by the way to its place, written with slashes. -/
  | moved {path route : Path} {shared past : List Component} {rest : List Text}
      (hroute : relative? target (resolve source [path]) = some route)
      (hway : IsWay target (resolve source [path]) route shared past rest) :
      Rebased source target (.string (marker ++ path)) (.string (marker ++ forwardSlashes route))

theorem local?_eq_some_iff {spec : Json} {path : Path} :
    local? spec = some path ↔ spec = .string (marker ++ path) := by
  cases spec with
  | string s => simp [local?, Text.after?_eq_some_iff]
  | _ => simp [local?]

theorem rebaseSpec_rebased (hsource : isAbsolute source = true) (htarget : isAbsolute target = true)
    (hnormal : IsNormal target) (spec : Json) :
    Rebased source target spec (rebaseSpec source target spec) := by
  cases h : local? spec with
  | none =>
    have hkept : rebaseSpec source target spec = spec := by rw [rebaseSpec, h]
    rw [hkept]
    refine .kept fun path heq => ?_
    rw [local?_eq_some_iff.2 heq] at h
    cases h
  | some path =>
    obtain rfl := local?_eq_some_iff.1 h
    have hplace : isAbsolute (resolve source [path]) = true := isAbsolute_resolve hsource _
    obtain ⟨route, shared, past, rest, hroute, hway⟩ := exists_isWay htarget hnormal hplace
    rw [normalize_resolve] at hroute hway
    rw [rebaseSpec_local, rebase, hroute]
    exact .moved hroute hway

/-- Dependencies stay under their keys, in their order, and each is rebased on its own. -/
theorem rebaseAll_rebased (hsource : isAbsolute source = true) (htarget : isAbsolute target = true)
    (hnormal : IsNormal target) (fields : Json.Fields) :
    (rebaseAll source target fields).keys = fields.keys ∧
      List.Forall₂ (fun field field' => field'.1 = field.1 ∧ Rebased source target field.2 field'.2)
        fields (rebaseAll source target fields) := by
  refine ⟨keys_rebaseAll source target fields, ?_⟩
  rw [rebaseAll, List.forall₂_map_right_iff, List.forall₂_same]
  exact fun field _ => ⟨rfl, rebaseSpec_rebased hsource htarget hnormal field.2⟩

/-- Of two dependencies, the one that is a place is rebased. -/
theorem rebaseAll_rebased_shared :
    Rebased "/p/./q/..".toList "/p/lib".toList (.string (marker ++ "../shared".toList))
      (.string (marker ++ "../../shared".toList)) := by
  have hnormal : IsNormal "/p/lib".toList := isNormal_normalize "/p/lib".toList
  obtain ⟨-, h⟩ := rebaseAll_rebased (show isAbsolute "/p/./q/..".toList = true by decide)
    (show isAbsolute "/p/lib".toList = true by decide) hnormal
    [("shared".toList, .string (marker ++ "../shared".toList)),
      ("left-pad".toList, .string "1".toList)]
  exact (List.forall₂_cons.1 h).1.2

end Dependencies

end ModulePack
