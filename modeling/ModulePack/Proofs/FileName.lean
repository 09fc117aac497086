import ModulePack.FileName

/-!
# The order of file names

Alphabetical order is total, and only a name itself is equal to it. `sort` puts names into this order
(`pairwise_sort`), in one way only (`sort_eq_of_perm`). A name stands before every longer one that
begins with it (`not_le_append`), although the lower case of its last letter may depend on what
follows: a final sigma comes before one that is not. `isScript_iff` and `stem_append` say what a
script's name is made of.
-/

namespace ModulePack

namespace Text

variable {before s t after : Text} {c : Char}

theorem reachesCased_append (h : reachesCased s = true) (t : Text) :
    reachesCased (s ++ t) = true := by
  unfold reachesCased at h ⊢
  rw [List.dropWhile_append]
  cases hs : s.dropWhile (inRanges caseIgnorableRanges) with
  | nil => simp [hs] at h
  | cons c rest => simpa [hs] using h

theorem lowerAt_ne_nil : lowerAt before c after ≠ [] := by
  unfold lowerAt
  repeat' split
  all_goals simp

theorem lowerAt_append (before : Text) (c : Char) (s t : Text) :
    lowerAt before c s = lowerAt before c (s ++ t) ∨
      lowerAt before c s = ['ς'] ∧ lowerAt before c (s ++ t) = ['σ'] := by
  unfold lowerAt
  split
  · exact .inl rfl
  split
  · cases hs : reachesCased s with
    | true => exact .inl (by rw [reachesCased_append hs])
    | false =>
      cases reachesCased before <;> cases reachesCased (s ++ t) <;> simp
  · exact .inl rfl

theorem lowercaseFrom_lt_append (before s : Text) (ht : t ≠ []) :
    lowercaseFrom before s < lowercaseFrom before (s ++ t) := by
  induction s generalizing before with
  | nil =>
    obtain ⟨c, t, rfl⟩ := List.exists_cons_of_ne_nil ht
    obtain ⟨d, u, heq⟩ := List.exists_cons_of_ne_nil (@lowerAt_ne_nil before t c)
    rw [List.nil_append, lowercaseFrom, lowercaseFrom, heq]
    exact List.nil_lt_cons ..
  | cons c s ih =>
    rw [List.cons_append, lowercaseFrom, lowercaseFrom]
    rcases lowerAt_append before c s t with heq | ⟨hfinal, hinner⟩
    · rw [← heq]
      exact List.append_left_lt (ih _)
    · rw [hfinal, hinner]
      exact List.cons_lt_cons_iff.2 (.inl (by decide))

theorem lowercase_lt_append (s : Text) (ht : t ≠ []) : lowercase s < lowercase (s ++ t) :=
  lowercaseFrom_lt_append [] s ht

end Text

namespace FileName

variable {a b c name base : Text} {names names' : List Text}

/-! ### Order -/

theorem le_iff : le a b = true ↔
    a.lowercase < b.lowercase ∨ a.lowercase = b.lowercase ∧ ¬b < a := by
  simp [le]

theorem le_total (a b : Text) : le a b = true ∨ le b a = true := by
  simp only [le_iff]
  by_cases heq : a.lowercase = b.lowercase
  · by_cases h : b < a
    · exact .inr (.inr ⟨heq.symm, List.lt_asymm h⟩)
    · exact .inl (.inr ⟨heq, h⟩)
  · rcases List.le_total a.lowercase b.lowercase with h | h
    · exact .inl (.inl ((List.le_iff_lt_or_eq.1 h).resolve_right heq))
    · exact .inr (.inl ((List.le_iff_lt_or_eq.1 h).resolve_right (Ne.symm heq)))

theorem le_trans (hab : le a b = true) (hbc : le b c = true) : le a c = true := by
  rw [le_iff] at *
  rcases hab with hab | ⟨hab, hab'⟩ <;> rcases hbc with hbc | ⟨hbc, hbc'⟩
  · exact .inl (List.lt_trans hab hbc)
  · exact .inl (hbc ▸ hab)
  · exact .inl (hab ▸ hbc)
  · refine .inr ⟨hab.trans hbc, ?_⟩
    rw [List.not_lt] at hab' hbc' ⊢
    exact List.le_trans hab' hbc'

theorem le_refl (a : Text) : le a a = true := le_iff.2 (.inr ⟨rfl, List.lt_irrefl a⟩)

/-- Names with the same lower case are still told apart. -/
theorem le_antisymm (hab : le a b = true) (hba : le b a = true) : a = b := by
  rw [le_iff] at hab hba
  rcases hab with hab | ⟨heq, hab⟩
  · rcases hba with hba | ⟨heq, -⟩
    · exact absurd hba (List.lt_asymm hab)
    · rw [heq] at hab
      exact absurd hab (List.lt_irrefl _)
  · rcases hba with hba | ⟨-, hba⟩
    · rw [heq] at hba
      exact absurd hba (List.lt_irrefl _)
    · rw [List.not_lt] at hab hba
      exact List.le_antisymm hab hba

theorem isLE_order (a b : Text) : (order a b).isLE = le a b := by
  rw [order]
  split
  · rename_i h
    rw [h, le_refl]
    rfl
  · cases le a b <;> rfl

theorem order_eq_eq_iff : order a b = .eq ↔ a = b := by
  rw [order]
  split
  · simp [*]
  · split <;> simp [*]

theorem compare_self (a : Text) : compareOfLessAndEq a a = .eq := by
  rw [compareOfLessAndEq, if_neg (List.lt_irrefl a), if_pos rfl]

theorem order_eq_then (a b : Text) : order a b =
    (compareOfLessAndEq a.lowercase b.lowercase).then (compareOfLessAndEq a b) := by
  by_cases hab : a = b
  · rw [hab, compare_self, compare_self, order, if_pos rfl]
    rfl
  by_cases heq : a.lowercase = b.lowercase
  · have hle : le a b = true ↔ a < b := by
      rw [le_iff, heq, or_iff_right (List.lt_irrefl _), and_iff_right rfl, List.not_lt,
        List.le_iff_lt_or_eq, or_iff_left hab]
    rw [heq, compare_self, order, if_neg hab]
    simp [compareOfLessAndEq, hab, hle]
  · by_cases hlt : a.lowercase < b.lowercase <;>
      simp [order, compareOfLessAndEq, hab, le_iff, heq, hlt]

instance : Std.TransCmp order where
  eq_swap {a b} := by
    by_cases hab : a = b
    · simp [order, hab]
    · rcases le_total a b with h | h
      · have h' : ¬le b a = true := fun h' => hab (le_antisymm h h')
        simp [order, hab, Ne.symm hab, h, h']
      · have h' : ¬le a b = true := fun h' => hab (le_antisymm h' h)
        simp [order, hab, Ne.symm hab, h, h']
  isLE_trans {a b c} hab hbc := by
    rw [isLE_order] at *
    exact le_trans hab hbc

instance : Std.LawfulEqCmp order where
  compare_self := order_eq_eq_iff.2 rfl
  eq_of_compare := order_eq_eq_iff.1

theorem pairwise_insert (h : names.Pairwise fun a b => le a b = true) :
    (insert name names).Pairwise fun a b => le a b = true := by
  induction names with
  | nil => simp [insert]
  | cons first rest ih =>
    obtain ⟨hfirst, hrest⟩ := List.pairwise_cons.1 h
    unfold insert
    split
    · rename_i hle
      refine List.pairwise_cons.2 ⟨fun x hx => ?_, h⟩
      rcases List.mem_cons.1 hx with rfl | hx
      · exact hle
      · exact le_trans hle (hfirst x hx)
    · rename_i hnot
      refine List.pairwise_cons.2 ⟨fun x hx => ?_, ih hrest⟩
      rcases List.mem_cons.1 ((insert_perm name rest).mem_iff.1 hx) with rfl | hx
      · exact (le_total x first).resolve_left hnot
      · exact hfirst x hx

theorem pairwise_sort (names : List Text) : (sort names).Pairwise fun a b => le a b = true := by
  induction names with
  | nil => exact .nil
  | cons name names ih => exact pairwise_insert ih

theorem sort_eq_of_perm (h : names.Perm names') : sort names = sort names' :=
  List.Perm.eq_of_pairwise (fun _ _ _ _ => le_antisymm) (pairwise_sort names) (pairwise_sort names')
    ((sort_perm names).trans (h.trans (sort_perm names').symm))

theorem not_le_append (name : Text) {t : Text} (ht : t ≠ []) : ¬le (name ++ t) name = true := by
  have hlt := Text.lowercase_lt_append name ht
  rw [le_iff]
  rintro (h | ⟨h, -⟩)
  · exact List.lt_asymm hlt h
  · rw [h] at hlt
    exact List.lt_irrefl _ hlt

/-! ### Stems -/

/-- `.js` in any ASCII case. -/
def IsExtension (t : Text) : Prop := Text.asciiLower t = scriptExtension

theorem IsExtension.length_eq {t : Text} (h : IsExtension t) :
    t.length = scriptExtension.length := by
  rw [← h, Text.asciiLower, List.length_map]

theorem stem?_eq_some_iff : stem? name = some base ↔ ∃ t, IsExtension t ∧ name = base ++ t := by
  unfold stem?
  constructor
  · intro h
    dsimp only at h
    split at h
    · rename_i hext
      cases h
      exact ⟨_, hext, (List.take_append_drop ..).symm⟩
    · cases h
  · rintro ⟨t, ht, rfl⟩
    have hcut : (base ++ t).length - scriptExtension.length = base.length := by
      rw [List.length_append, ht.length_eq]
      omega
    rw [hcut]
    dsimp only
    rw [List.drop_left, List.take_left]
    exact if_pos ht

theorem isScript_iff : isScript name = true ↔ ∃ t, IsExtension t ∧ name = stem name ++ t := by
  rw [isScript, Option.isSome_iff_exists, stem]
  constructor
  · rintro ⟨base, h⟩
    rw [h]
    exact stem?_eq_some_iff.1 h
  · rintro ⟨t, ht, h⟩
    exact ⟨_, stem?_eq_some_iff.2 ⟨t, ht, h⟩⟩

theorem stem_append {t : Text} (ht : IsExtension t) (base : Text) : stem (base ++ t) = base := by
  rw [stem, stem?_eq_some_iff.2 ⟨t, ht, rfl⟩, Option.getD_some]

theorem IsExtension.isScript {t : Text} (ht : IsExtension t) (base : Text) :
    isScript (base ++ t) = true := isScript_iff.2 ⟨t, ht, by rw [stem_append ht]⟩

end FileName

end ModulePack
