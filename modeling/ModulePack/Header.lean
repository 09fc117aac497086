import ModulePack.Text.Space

/-!
# Copyright headers

A header is a run of block comments at the start of a source, with white space between them, that
ends with the first one to mention a copyright. `append_of_scan` says that the header and what
follows it make up the source again, but for white space.
-/

namespace ModulePack.Header

/-- The marks around a comment. -/
def opening : Text := "/*".toList
def closing : Text := "*/".toList

/-- The word that tells a header from other comments; ASCII case does not count. -/
def token : Text := "copyright".toList

/-- The comment at the start of a text and what follows it. -/
def comment? (s : Text) : Option (Text × Text) := do
  let inner ← Text.after? opening s
  let (body, rest) ← Text.cut? closing inner
  return (opening ++ body ++ closing, rest)

def mentionsCopyright (comment : Text) : Bool := Text.mentions token comment.asciiLower

theorem comment?_eq_append {s comment rest : Text} (h : comment? s = some (comment, rest)) :
    s = comment ++ rest := by
  obtain ⟨inner, hinner, h⟩ := Option.bind_eq_some_iff.1 h
  obtain ⟨⟨body, r⟩, hcut, h⟩ := Option.bind_eq_some_iff.1 h
  obtain ⟨rfl, rfl⟩ : opening ++ body ++ closing = comment ∧ r = rest := by simpa using h
  rw [Text.after?_eq_some_iff.1 hinner, Text.cut?_eq_some hcut]
  simp

theorem length_lt_of_comment {s comment rest : Text} (h : comment? s = some (comment, rest)) :
    rest.length < s.length := by
  obtain ⟨inner, hinner, h'⟩ := Option.bind_eq_some_iff.1 h
  obtain ⟨⟨body, r⟩, hcut, h'⟩ := Option.bind_eq_some_iff.1 h'
  obtain ⟨-, rfl⟩ : _ ∧ r = rest := by simpa using h'
  rw [Text.after?_eq_some_iff.1 hinner, Text.cut?_eq_some hcut]
  simp [opening]
  omega

/-- The comments up to the first that mentions a copyright, with the white space before each, and
what follows them. None where something else comes first. -/
def scan? (s : Text) : Option (Text × Text) :=
  let gap := s.takeWhile Text.isSpace
  match h : comment? (s.dropWhile Text.isSpace) with
  | none => none
  | some (comment, rest) =>
    if mentionsCopyright comment then some (gap ++ comment, rest)
    else
      have : rest.length < s.length :=
        Nat.lt_of_lt_of_le (length_lt_of_comment h) (List.dropWhile_sublist _).length_le
      (scan? rest).map fun (header, after) => (gap ++ comment ++ header, after)
termination_by s.length

/-- The header of a source and the source behind it, each without the white space in front. -/
def extract? (source : Text) : Option (Text × Text) :=
  (scan? source.trimStart).map fun (header, rest) => (header, rest.trimStart)

theorem append_of_scan {s header rest : Text} (h : scan? s = some (header, rest)) :
    s = header ++ rest := by
  fun_induction scan? s generalizing header with
  | case1 => simp at h
  | case2 s gap comment after hcomment =>
    obtain ⟨rfl, rfl⟩ : gap ++ comment = header ∧ after = rest := by simpa using h
    rw [List.append_assoc, ← comment?_eq_append hcomment, List.takeWhile_append_dropWhile]
  | case3 s gap comment after hcomment =>
    rename_i ih
    obtain ⟨⟨inner, r⟩, hscan, heq⟩ := Option.map_eq_some_iff.1 h
    obtain ⟨rfl, rfl⟩ : gap ++ comment ++ inner = header ∧ r = rest := by simpa using heq
    rw [List.append_assoc, ← ih hscan, List.append_assoc, ← comment?_eq_append hcomment,
      List.takeWhile_append_dropWhile]

end ModulePack.Header
