import ModulePack.Text.Space
import ModulePack.Text.Lowercase.Table

/-!
# Lower case

The full lower case mapping of the Unicode standard. Two rules go beyond one character for one: a
capital I with dot becomes two characters, and a capital sigma takes its final form at the end of a
word. `lowercase_of_ascii` says that on ASCII the mapping is the plain one.
-/

namespace ModulePack.Text

/-- The lower case form of a character outside ASCII, by the first run of the table that has it. -/
def lowerChar (c : Char) : Char :=
  match lowerRuns.find? fun (first, last, step, _) =>
      first ≤ c.toNat && c.toNat ≤ last && (c.toNat - first) % step == 0 with
  | some (first, _, _, image) => Char.ofNat (image + (c.toNat - first))
  | none => c

/-- Whether the first character that is not case-ignorable exists and is cased. -/
def reachesCased (s : Text) : Bool :=
  match s.dropWhile (inRanges caseIgnorableRanges) with
  | [] => false
  | c :: _ => inRanges casedRanges c

/-- The lower case form of one character, given the text before it (nearest first) and after it. -/
def lowerAt (before : Text) (c : Char) (after : Text) : Text :=
  if c.toNat < 0x80 then [c.toLower]
  else if c = 'Σ' then
    if reachesCased before && !reachesCased after then ['ς'] else ['σ']
  else if c = 'İ' then ['i', '\u0307']
  else [lowerChar c]

/-- `lowercaseFrom before s` lowers `s`, where `before` is the text in front of it, reversed. -/
def lowercaseFrom (before : Text) : Text → Text
  | [] => []
  | c :: s => lowerAt before c s ++ lowercaseFrom (c :: before) s

def lowercase (s : Text) : Text := lowercaseFrom [] s

theorem lowercaseFrom_of_ascii (before : Text) {s : Text} (h : ∀ c ∈ s, c.toNat < 0x80) :
    lowercaseFrom before s = asciiLower s := by
  induction s generalizing before with
  | nil => rfl
  | cons c s ih =>
    have hc := h c (List.mem_cons_self ..)
    have hs := ih (c :: before) fun d hd => h d (List.mem_cons_of_mem _ hd)
    simp [lowercaseFrom, lowerAt, hc, hs, asciiLower]

theorem lowercase_of_ascii {s : Text} (h : ∀ c ∈ s, c.toNat < 0x80) : lowercase s = asciiLower s :=
  lowercaseFrom_of_ascii [] h

end ModulePack.Text
