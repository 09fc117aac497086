import ModulePack.Text.Space

/-!
# Lines

A line ends at LF, at CR, or at CR LF taken together; the text after the last line end is a line of
its own, so there is always at least one. `lines_ne_nil` says so, and `not_mem_of_mem_lines` that no
line holds a line end.
-/

namespace ModulePack.Text

def lineEnd : Text := ['\n']

def lines : Text → List Text
  | [] => [[]]
  | '\r' :: '\n' :: s => [] :: lines s
  | c :: s =>
    if c = '\n' ∨ c = '\r' then [] :: lines s
    else
      match lines s with
      | [] => [[c]]
      | line :: rest => (c :: line) :: rest

/-- The lines put together again with the line end that is written. -/
def unlines (ls : List Text) : Text := join lineEnd ls

def trimBlank (ls : List Text) : List Text :=
  ((ls.dropWhile isBlank).reverse.dropWhile isBlank).reverse

def indentUnit : Text := ['\t']

/-- The line moved in by one unit; an empty line stays empty. -/
def indent (line : Text) : Text := if line = [] then [] else indentUnit ++ line

theorem lines_ne_nil (s : Text) : lines s ≠ [] := by
  fun_induction lines s <;> simp

theorem not_mem_of_mem_lines {s line : Text} (h : line ∈ lines s) :
    '\n' ∉ line ∧ '\r' ∉ line := by
  fun_induction lines s generalizing line with
  | case1 => simp_all
  | case2 s ih =>
    rcases List.mem_cons.1 h with rfl | h
    · simp
    · exact ih h
  | case3 c s _ _ ih =>
    rcases List.mem_cons.1 h with rfl | h
    · simp
    · exact ih h
  | case4 c s _ _ hs => exact absurd hs (lines_ne_nil s)
  | case5 c s _ hc first rest hs ih =>
    rw [hs] at ih
    rcases List.mem_cons.1 h with rfl | h
    · have := ih (List.mem_cons_self ..)
      simp only [not_or] at hc
      simp only [List.mem_cons, not_or]
      exact ⟨⟨Ne.symm hc.1, this.1⟩, ⟨Ne.symm hc.2, this.2⟩⟩
    · exact ih (List.mem_cons_of_mem _ h)

end ModulePack.Text
