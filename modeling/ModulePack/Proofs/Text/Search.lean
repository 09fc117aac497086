import Mathlib.Data.List.Infix
import ModulePack.Text.Basic

/-!
# Looking for a mark in a text

`cut?` finds the first occurrence of a mark (`cut?_eq_some_iff`): before its last character nothing
in the text is the mark. `mentions` says whether there is one at all (`mentions_iff`).
-/

namespace ModulePack.Text

variable {mark s before after : Text} {c : Char}

theorem cut?_cons_of_starts (h : mark <+: c :: s) :
    ∃ rest, c :: s = mark ++ rest ∧ cut? mark (c :: s) = some ([], rest) := by
  obtain ⟨rest, hrest⟩ := h
  have hafter : after? mark (c :: s) = some rest := after?_eq_some_iff.2 hrest.symm
  exact ⟨rest, hrest.symm, by rw [cut?, hafter]⟩

theorem cut?_cons_of_not_starts (h : ¬mark <+: c :: s) :
    cut? mark (c :: s) = (cut? mark s).map fun (before, after) => (c :: before, after) := by
  have hafter : after? mark (c :: s) = none :=
    Option.eq_none_iff_forall_ne_some.2 fun rest hrest => h ⟨rest, (after?_eq_some_iff.1 hrest).symm⟩
  rw [cut?, hafter]

theorem mentions_iff : mentions mark s = true ↔ mark <:+: s := by
  rw [mentions]
  induction s with
  | nil => by_cases h : mark = [] <;> simp [cut?, h]
  | cons c s ih =>
    rw [List.infix_cons_iff]
    by_cases h : mark <+: c :: s
    · obtain ⟨rest, -, hcut⟩ := cut?_cons_of_starts h
      simp [hcut, h]
    · simp [cut?_cons_of_not_starts h, h, ih]

/-- Before the last character of a mark there is no room for another unless some text precedes it. -/
theorem not_infix_dropLast (hmark : mark ≠ []) : ¬mark <:+: mark.dropLast := fun h => by
  have hlen := h.length_le
  have hpos := List.length_pos_of_ne_nil hmark
  rw [List.length_dropLast] at hlen
  omega

theorem cut?_eq_some_iff (hmark : mark ≠ []) : cut? mark s = some (before, after) ↔
    s = before ++ mark ++ after ∧ ¬mark <:+: before ++ mark.dropLast := by
  induction s generalizing before with
  | nil => simp [cut?, hmark]
  | cons c s ih =>
    by_cases h : mark <+: c :: s
    · obtain ⟨rest, hrest, hcut⟩ := cut?_cons_of_starts h
      rw [hcut]
      constructor
      · intro heq
        obtain ⟨rfl, rfl⟩ : [] = before ∧ rest = after := by simpa using heq
        exact ⟨by simpa using hrest, by simpa using not_infix_dropLast hmark⟩
      · rintro ⟨heq, hnot⟩
        cases before with
        | nil =>
          obtain rfl : rest = after := by simpa [hrest] using heq
          rfl
        | cons b before =>
          -- the mark at the start ends before the last character of the one behind `before`
          have hwhole : c :: s = (b :: before ++ mark.dropLast) ++ ([mark.getLast hmark] ++ after) := by
            rw [heq]
            conv_lhs => rw [← List.dropLast_append_getLast hmark]
            simp
          have hlen : mark.length ≤ (b :: before ++ mark.dropLast).length := by
            simp
            omega
          have hpre : mark <+: b :: before ++ mark.dropLast :=
            List.prefix_of_prefix_length_le h (hwhole ▸ List.prefix_append ..) hlen
          exact absurd hpre.isInfix hnot
    · rw [cut?_cons_of_not_starts h]
      constructor
      · intro heq
        obtain ⟨⟨b, a⟩, hcut, heq⟩ := Option.map_eq_some_iff.1 heq
        obtain ⟨rfl, rfl⟩ : c :: b = before ∧ a = after := by simpa using heq
        obtain ⟨rfl, hnot⟩ := ih.1 hcut
        refine ⟨by simp, fun hinf => ?_⟩
        rcases List.infix_cons_iff.1 hinf with hpre | hinf
        · have hlonger : c :: b ++ mark.dropLast <+: c :: (b ++ mark ++ a) := by
            conv_rhs => rw [← List.dropLast_append_getLast hmark]
            exact ⟨[mark.getLast hmark] ++ a, by simp⟩
          exact h (hpre.trans hlonger)
        · exact hnot hinf
      · rintro ⟨heq, hnot⟩
        cases before with
        | nil => exact absurd ⟨after, by simpa using heq.symm⟩ h
        | cons b before =>
          obtain ⟨rfl, rfl⟩ : c = b ∧ s = before ++ mark ++ after := by simpa using heq
          have hrest : ¬mark <:+: before ++ mark.dropLast := fun hinf =>
            hnot (List.infix_cons hinf)
          rw [ih.2 ⟨rfl, hrest⟩]
          rfl

end ModulePack.Text
