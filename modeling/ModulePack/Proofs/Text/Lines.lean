import ModulePack.Text.Lines

/-!
# Splitting what was put together

`lines_unlines` and `lines_unlines_append`: lines put together are the same lines when split again,
save that no lines at all make an empty one (`orEmptyLine`).
-/

namespace ModulePack.Text

/-- A text without a line end. -/
def IsLine (line : Text) : Prop := '\n' ∉ line ∧ '\r' ∉ line

instance (line : Text) : Decidable (IsLine line) := inferInstanceAs (Decidable (_ ∧ _))

/-- The lines of a text that has these lines: no lines at all make an empty one. -/
def orEmptyLine (ls : List Text) : List Text := if ls = [] then [[]] else ls

variable {line first s : Text} {ls rest : List Text}

theorem isLine_nil : IsLine [] := ⟨List.not_mem_nil, List.not_mem_nil⟩

theorem isLine_append : IsLine (line ++ s) ↔ IsLine line ∧ IsLine s := by
  simp only [IsLine, List.mem_append, not_or]
  exact ⟨fun ⟨⟨h, h'⟩, k, k'⟩ => ⟨⟨h, k⟩, h', k'⟩, fun ⟨⟨h, k⟩, h', k'⟩ => ⟨⟨h, h'⟩, k, k'⟩⟩

theorem isLine_of_mem_lines (h : line ∈ lines s) : IsLine line := not_mem_of_mem_lines h

theorem isLine_indent (h : IsLine line) : IsLine (indent line) := by
  rw [indent]
  split
  · exact isLine_nil
  · simpa [IsLine, indentUnit] using h

theorem lines_append (h : IsLine line) (hs : lines s = first :: rest) :
    lines (line ++ s) = (line ++ first) :: rest := by
  induction line with
  | nil => exact hs
  | cons c line ih =>
    obtain ⟨⟨hc, hn⟩, hc', hr⟩ : ('\n' ≠ c ∧ '\n' ∉ line) ∧ '\r' ≠ c ∧ '\r' ∉ line := by
      simpa [IsLine, not_or] using h
    rw [List.cons_append, lines, if_neg (by simp [Ne.symm hc, Ne.symm hc']), ih ⟨hn, hr⟩]
    · rfl
    · rintro s rfl
      exact absurd rfl hc'

theorem lines_lineEnd (s : Text) : lines ('\n' :: s) = [] :: lines s := by
  rw [lines, if_pos (Or.inl rfl)]
  simp

theorem lines_line_append (h : IsLine line) (s : Text) :
    lines (line ++ '\n' :: s) = line :: lines s := by
  rw [lines_append h (lines_lineEnd s), List.append_nil]

/-- Behind the lines put together stands the end of the text or that of the last line. -/
theorem lines_unlines_behind (h : ∀ line ∈ ls, IsLine line) (hs : lines s = [] :: rest) :
    lines (unlines ls ++ s) = orEmptyLine ls ++ rest := by
  induction ls with
  | nil => exact hs
  | cons line ls ih =>
    have hline := h line (List.mem_cons_self ..)
    by_cases hls : ls = []
    · subst hls
      exact (lines_append hline hs).trans (by rw [List.append_nil]; rfl)
    · have hjoin : unlines (line :: ls) ++ s = line ++ '\n' :: (unlines ls ++ s) := by
        rw [unlines, join_cons hls]
        simp [unlines, lineEnd]
      rw [hjoin, lines_line_append hline, ih fun l hl => h l (List.mem_cons_of_mem _ hl)]
      simp [orEmptyLine, hls]

theorem lines_unlines_append (h : ∀ line ∈ ls, IsLine line) (s : Text) :
    lines (unlines ls ++ '\n' :: s) = orEmptyLine ls ++ lines s :=
  lines_unlines_behind h (lines_lineEnd s)

theorem lines_unlines (h : ∀ line ∈ ls, IsLine line) : lines (unlines ls) = orEmptyLine ls := by
  simpa using lines_unlines_behind h (s := []) rfl

theorem orEmptyLine_map_indent (ls : List Text) :
    orEmptyLine (ls.map indent) = (orEmptyLine ls).map indent := by
  cases ls <;> rfl

theorem mem_of_mem_trimBlank (h : line ∈ trimBlank ls) : line ∈ ls := by
  rw [trimBlank, List.mem_reverse] at h
  have h := (List.dropWhile_sublist _).subset h
  exact (List.dropWhile_sublist _).subset (List.mem_reverse.1 h)

theorem trimBlank_of_ends {last : Text} (hline : isBlank line = false)
    (hlast : isBlank last = false) (ls : List Text) :
    trimBlank (line :: (ls ++ [last])) = line :: (ls ++ [last]) := by
  rw [trimBlank, List.dropWhile_cons_of_neg (by simp [hline]), List.reverse_cons,
    List.reverse_append, List.reverse_singleton, List.singleton_append, List.cons_append,
    List.dropWhile_cons_of_neg (by simp [hlast])]
  simp

/-- A blank line does not stay at the end. -/
theorem trimBlank_ne_of_blank (h : isBlank line = true) : trimBlank ls ≠ [line] := by
  intro heq
  have hlast := List.head?_dropWhile_not isBlank (ls.dropWhile isBlank).reverse
  rw [trimBlank, List.reverse_eq_cons_iff] at heq
  rw [heq] at hlast
  simp [h] at hlast

/-- Trimmed lines are never a single empty one, so that one stands for none. -/
theorem trimBlank_eq_of_orEmptyLine {ls' : List Text}
    (h : orEmptyLine (trimBlank ls) = orEmptyLine (trimBlank ls')) : trimBlank ls = trimBlank ls' := by
  have hne (ls : List Text) : trimBlank ls ≠ [[]] := trimBlank_ne_of_blank rfl
  rw [orEmptyLine, orEmptyLine] at h
  split at h <;> split at h
  · simp_all
  · exact absurd h.symm (hne ls')
  · exact absurd h (hne ls)
  · exact h

end ModulePack.Text
