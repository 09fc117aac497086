import Mathlib.Data.List.Basic
import Mathlib.Data.List.Induction
import ModulePack.Disk.Access

/-!
# Paths as lists of names

`Path.names` leaves out what repeated slashes and slashes at the end of a path add to it. A name
appended to a path is one more name (`names_append`), and the steps of the result are its names
(`steps_append`).
-/

namespace ModulePack

namespace Path

/-- A name that leads to an entry of a directory: no piece with a meaning of its own. -/
structure IsName (x : Text) : Prop where
  ne_nil : x ≠ []
  ne_here : x ≠ ['.']
  ne_up : x ≠ ['.', '.']
  no_slash : '/' ∉ x

/-- The pieces of a path that are not empty. -/
def names (p : Path) : List Text := (pieces p).filter (· ≠ [])

theorem pieces_append_slash (p q : Path) : pieces (p ++ '/' :: q) = pieces p ++ pieces q := by
  induction p with
  | nil =>
    obtain ⟨piece, rest, h⟩ := List.exists_cons_of_ne_nil (pieces_ne_nil q)
    simp [pieces, h]
  | cons c p ih =>
    obtain ⟨piece, rest, h⟩ := List.exists_cons_of_ne_nil (pieces_ne_nil p)
    rw [h, List.cons_append] at ih
    rw [List.cons_append, pieces, ih, pieces, h]
    by_cases hc : c = '/' <;> simp [hc]

theorem pieces_of_no_slash {x : Text} (h : '/' ∉ x) : pieces x = [x] := by
  induction x with
  | nil => rfl
  | cons c x ih =>
    rw [pieces, ih fun hmem => h (List.mem_cons_of_mem _ hmem)]
    exact if_neg fun hc => h (by simp [hc])

theorem exists_pieces_concat {c : Char} (hc : c ≠ '/') (p : Path) :
    ∃ before last, pieces (p ++ [c]) = before ++ [last] ∧ last ≠ [] := by
  induction p with
  | nil => exact ⟨[], [c], by simp [pieces, hc], by simp⟩
  | cons d p ih =>
    obtain ⟨before, last, h, hlast⟩ := ih
    rw [List.cons_append, pieces, h]
    cases before with
    | nil =>
      by_cases hd : d = '/'
      · exact ⟨[[]], last, by simp [hd], hlast⟩
      · exact ⟨[], d :: last, by simp [hd], by simp⟩
    | cons first before =>
      by_cases hd : d = '/'
      · exact ⟨[] :: first :: before, last, by simp [hd], hlast⟩
      · exact ⟨(d :: first) :: before, last, by simp [hd], hlast⟩

theorem mem_of_mem_pieces {p : Path} {c : Char} {piece : Text} (hpiece : piece ∈ pieces p)
    (hc : c ∈ piece) : c ∈ p := by
  induction p generalizing piece with
  | nil =>
    obtain rfl : piece = [] := by simpa [pieces] using hpiece
    cases hc
  | cons a p ih =>
    obtain ⟨first, rest, heq⟩ := List.exists_cons_of_ne_nil (pieces_ne_nil p)
    rw [heq] at ih
    rw [pieces, heq] at hpiece
    by_cases ha : a = '/'
    · simp only [ha, if_true] at hpiece
      rcases List.mem_cons.1 hpiece with rfl | hpiece
      · cases hc
      · exact List.mem_cons_of_mem _ (ih hpiece hc)
    · simp only [ha, if_false] at hpiece
      rcases List.mem_cons.1 hpiece with rfl | hpiece
      · rcases List.mem_cons.1 hc with rfl | hc
        · exact List.mem_cons_self
        · exact List.mem_cons_of_mem _ (ih List.mem_cons_self hc)
      · exact List.mem_cons_of_mem _ (ih (List.mem_cons_of_mem _ hpiece) hc)

theorem names_append_slash (p q : Path) : names (p ++ '/' :: q) = names p ++ names q := by
  simp [names, pieces_append_slash]

@[simp] theorem names_nil : names [] = [] := rfl

theorem names_of_no_slash {x : Text} (hx : x ≠ []) (h : '/' ∉ x) : names x = [x] := by
  simp [names, pieces_of_no_slash h, hx]

theorem isAbsolute_of_no_slash {x : Text} (h : '/' ∉ x) : isAbsolute x = false := by
  cases x with
  | nil => rfl
  | cons c x => simpa [isAbsolute] using fun hc => h (by simp [hc])

/-- A segment without a slash appended to a path: behind one slash, unless the path is empty. -/
theorem append_of_no_slash (p : Path) {x : Text} (h : '/' ∉ x) :
    (p = [] ∧ append p x = x) ∨ ∃ q, append p x = q ++ '/' :: x ∧ names q = names p := by
  rw [append, isAbsolute_of_no_slash h, Bool.false_or]
  rcases List.eq_nil_or_concat' p with rfl | ⟨q, c, rfl⟩
  · exact .inl ⟨rfl, rfl⟩
  · refine .inr ?_
    by_cases hc : c = '/'
    · exact ⟨q, by simp [hc], by rw [hc, names_append_slash, names_nil, List.append_nil]⟩
    · exact ⟨q ++ [c], by simp [hc], rfl⟩

/-- What stands in front of an appended segment does not depend on the segment. -/
theorem exists_append_relative (p : Path) : ∃ q, (∀ x, isAbsolute x = false → append p x = q ++ x) ∧
    (q = [] ∨ q.getLast? = some '/') := by
  by_cases hp : p = []
  · exact ⟨[], fun x h => by simp [append, h, hp], .inl rfl⟩
  by_cases hslash : p.getLast? = some '/'
  · exact ⟨p, fun x h => by simp [append, h, hp, hslash], .inr hslash⟩
  · exact ⟨p ++ ['/'], fun x h => by simp [append, h, hp, hslash], .inr (by simp)⟩

theorem exists_append_eq (p : Path) : ∃ q, ∀ x, '/' ∉ x → append p x = q ++ x := by
  obtain ⟨q, hq, -⟩ := exists_append_relative p
  exact ⟨q, fun x h => hq x (isAbsolute_of_no_slash h)⟩

/-- A slash that is appended to a path has no effect on what is appended then. -/
theorem append_append_nil (p : Path) {x : Path} (h : isAbsolute x = false) :
    append (append p []) x = append p x := by
  obtain ⟨q, hq, hends⟩ := exists_append_relative p
  rw [hq [] rfl, hq x h, List.append_nil, append, h, Bool.false_or]
  rcases hends with rfl | hslash
  · rfl
  · have hne : q ≠ [] := by
      rintro rfl
      cases hslash
    simp [hne, hslash]

theorem append_append_name (p : Path) {x s : Text} (hx : x ≠ []) (hslash : '/' ∉ x)
    (hs : isAbsolute s = false) : append (append p x) s = append p (x ++ '/' :: s) := by
  obtain ⟨q, hq, -⟩ := exists_append_relative p
  obtain ⟨y, c, rfl⟩ := (List.eq_nil_or_concat' x).resolve_left hx
  have hc : c ≠ '/' := by
    rintro rfl
    simp at hslash
  have hrel : isAbsolute (y ++ [c] ++ '/' :: s) = false := by
    cases y with
    | nil => simpa [isAbsolute] using hc
    | cons a y => simpa [isAbsolute] using fun ha => hslash (by simp [ha])
  rw [hq _ (isAbsolute_of_no_slash hslash), hq _ hrel, append, hs, Bool.false_or]
  simp [hc]

theorem mem_append {p : Path} {x : Text} {c : Char} (h : c ∈ append p x) :
    c ∈ p ∨ c = '/' ∨ c ∈ x := by
  unfold append at h
  split at h
  · exact .inr (.inr h)
  · split at h
    · exact (List.mem_append.1 h).imp_right .inr
    · simpa using h

theorem prefix_append (p : Path) {x : Text} (h : '/' ∉ x) : p <+: append p x := by
  rw [append, isAbsolute_of_no_slash h, Bool.false_or]
  split
  · rename_i hp
    have hnil : p = [] := by simpa using hp
    exact hnil ▸ List.nil_prefix
  · split
    · exact List.prefix_append ..
    · exact List.prefix_append ..

theorem names_append (p : Path) {x : Text} (hx : x ≠ []) (h : '/' ∉ x) :
    names (append p x) = names p ++ [x] := by
  rcases append_of_no_slash p h with ⟨rfl, heq⟩ | ⟨q, heq, hq⟩
  · rw [heq, names_of_no_slash hx h, names_nil, List.nil_append]
  · rw [heq, names_append_slash, names_of_no_slash hx h, hq]

theorem append_ne_nil (p : Path) {x : Text} (hx : x ≠ []) (h : '/' ∉ x) : append p x ≠ [] := by
  intro hnil
  have hnames := names_append p hx h
  simp [hnil] at hnames

theorem forwardSlashes_of_not_mem {p : Path} (h : '\\' ∉ p) : forwardSlashes p = p := by
  have hid : ∀ c ∈ p, (if c = '\\' then '/' else c) = c := by
    intro c hc
    exact if_neg (ne_of_mem_of_not_mem hc h)
  rw [forwardSlashes, List.map_congr_left hid, List.map_id']

end Path

namespace Disk

/-- The steps of a path are its names, with an empty one behind them if the path ends in a slash. -/
theorem steps_eq (p : Path) : steps p = Path.names p ∨ steps p = Path.names p ++ [[]] := by
  by_cases h : (Path.pieces p).getLast? = some []
  · exact .inr (by simp [steps, Path.names, h])
  · exact .inl (by simp [steps, Path.names, h])

theorem steps_append (p : Path) {x : Text} (hx : x ≠ []) (h : '/' ∉ x) :
    steps (Path.append p x) = Path.names p ++ [x] := by
  have hlast : ∃ before, Path.pieces (Path.append p x) = before ++ [x] := by
    rcases Path.append_of_no_slash p h with ⟨-, heq⟩ | ⟨q, heq, -⟩
    · exact ⟨[], by rw [heq, Path.pieces_of_no_slash h, List.nil_append]⟩
    · exact ⟨_, by rw [heq, Path.pieces_append_slash, Path.pieces_of_no_slash h]⟩
  obtain ⟨before, hlast⟩ := hlast
  rw [← Path.names_append p hx h, Path.names, steps, hlast]
  simp [hx]

theorem trimSlashes_concat (p : Path) (c : Char) :
    trimSlashes (p ++ [c]) = if c = '/' then trimSlashes p else p ++ [c] := by
  by_cases hc : c = '/' <;> simp [trimSlashes, hc]

/-- A path that does not end in a slash ends in a name. -/
theorem exists_append_concat {c : Char} (hc : c ≠ '/') (p : Path) :
    ∃ q x, p ++ [c] = Path.append q x ∧ x ≠ [] ∧ '/' ∉ x := by
  by_cases hp : '/' ∈ p
  · obtain ⟨s, t, hrev, hs⟩ := List.eq_append_cons_of_mem (List.mem_reverse.2 hp)
    have hsplit : p = t.reverse ++ '/' :: s.reverse := by
      rw [← List.reverse_reverse p, hrev]
      simp
    have hx : '/' ∉ s.reverse ++ [c] := by simpa using ⟨hs, hc.symm⟩
    refine ⟨t.reverse ++ ['/'], s.reverse ++ [c], ?_, by simp, hx⟩
    simp [Path.append, Path.isAbsolute_of_no_slash hx, hsplit]
  · have hx : '/' ∉ p ++ [c] := by simpa using ⟨hp, hc.symm⟩
    exact ⟨[], p ++ [c], by simp [Path.append], by simp, hx⟩

theorem exists_append_of_trimSlashes {p : Path} (h : trimSlashes p ≠ []) :
    ∃ q x, trimSlashes p = Path.append q x ∧ x ≠ [] ∧ '/' ∉ x := by
  induction p using List.reverseRecOn with
  | nil => exact absurd rfl h
  | append_singleton p c ih =>
    rw [trimSlashes_concat] at h ⊢
    split
    · rename_i hc
      rw [if_pos hc] at h
      exact ih h
    · rename_i hc
      exact exists_append_concat hc p

theorem steps_slash (p : Path) : steps (p ++ ['/']) = Path.names p ++ [[]] := by
  have hpieces := Path.pieces_append_slash p []
  have hnames := Path.names_append_slash p []
  rw [Path.names_nil, List.append_nil, Path.names, hpieces] at hnames
  rw [steps, hpieces, hnames]
  simp [Path.pieces]

theorem mem_trimSlashes {p : Path} {c : Char} (hc : c ≠ '/') : c ∈ trimSlashes p ↔ c ∈ p := by
  induction p using List.reverseRecOn with
  | nil => rfl
  | append_singleton p e ih =>
    rw [trimSlashes_concat]
    split
    · rename_i he
      simp [ih, he, hc]
    · rfl

theorem names_trimSlashes (p : Path) : Path.names (trimSlashes p) = Path.names p := by
  induction p using List.reverseRecOn with
  | nil => rfl
  | append_singleton p c ih =>
    rw [trimSlashes_concat]
    split
    · rename_i hc
      rw [ih, hc, Path.names_append_slash, Path.names_nil, List.append_nil]
    · rfl

theorem names_of_trimSlashes {p q : Path} {x : Text} (hx : x ≠ []) (h : '/' ∉ x)
    (hp : trimSlashes p = Path.append q x) : Path.names p = Path.names q ++ [x] := by
  rw [← names_trimSlashes, hp, Path.names_append q hx h]

/-- Without the slashes at its end, a path has no steps but its names. -/
theorem steps_trimSlashes {p : Path} (h : trimSlashes p ≠ []) :
    steps (trimSlashes p) = Path.names p := by
  induction p using List.reverseRecOn with
  | nil => exact absurd rfl h
  | append_singleton p c ih =>
    rw [← names_trimSlashes]
    rw [trimSlashes_concat] at h ⊢
    split
    · rename_i hc
      rw [if_pos hc] at h
      rw [ih h, names_trimSlashes]
    · rename_i hc
      obtain ⟨before, last, heq, hlast⟩ := Path.exists_pieces_concat hc p
      rw [steps, Path.names, heq]
      simp [hlast]

theorem trimSlashes_append (p : Path) {x : Text} (hx : x ≠ []) (h : '/' ∉ x) :
    trimSlashes (Path.append p x) = Path.append p x := by
  obtain ⟨y, c, rfl⟩ := (List.eq_nil_or_concat' x).resolve_left hx
  have hc : c ≠ '/' := by
    rintro rfl
    simp at h
  rcases Path.append_of_no_slash p h with ⟨-, heq⟩ | ⟨q, heq, -⟩
  · rw [heq, trimSlashes_concat, if_neg hc]
  · have hq : q ++ '/' :: (y ++ [c]) = (q ++ '/' :: y) ++ [c] := by simp
    rw [heq, hq, trimSlashes_concat, if_neg hc]

end Disk

end ModulePack
