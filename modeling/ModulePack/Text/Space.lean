import ModulePack.Text.Basic

/-!
# White space

`isSpace` is the property `White_Space` of the Unicode standard together with the byte order mark.
-/

namespace ModulePack.Text

/-- Code points of white space, as closed ranges; the last is the byte order mark. -/
def spaceRanges : List (Nat × Nat) :=
  [(0x9, 0xd), (0x20, 0x20), (0x85, 0x85), (0xa0, 0xa0), (0x1680, 0x1680), (0x2000, 0x200a),
   (0x2028, 0x2029), (0x202f, 0x202f), (0x205f, 0x205f), (0x3000, 0x3000), (0xfeff, 0xfeff)]

/-- Whether the code point of `c` lies in one of the closed ranges. -/
def inRanges (ranges : List (Nat × Nat)) (c : Char) : Bool :=
  ranges.any fun (first, last) => first ≤ c.toNat && c.toNat ≤ last

def isSpace (c : Char) : Bool := inRanges spaceRanges c

/-- The text from its first character on that is no white space. -/
def trimStart (s : Text) : Text := s.dropWhile isSpace

/-- A blank line holds nothing but white space. -/
def isBlank (s : Text) : Bool := s.all isSpace

theorem isSpace_of_isWhitespace {c : Char} (h : c.isWhitespace = true) : isSpace c = true := by
  simp only [Char.isWhitespace, Bool.or_eq_true, decide_eq_true_eq] at h
  rcases h with ((rfl | rfl) | rfl) | rfl <;> decide

end ModulePack.Text
