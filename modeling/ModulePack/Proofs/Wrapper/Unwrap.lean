import ModulePack.Proofs.Header.Layout
import ModulePack.Proofs.Text.Lines
import ModulePack.Wrapper

/-!
# Unwrapping

`unwrap?` takes the header and the boilerplate off a wrapped module and moves the body out again.
`unwrap?_ofSource` says that this gives the trimmed body of the source back, so that a wrapped text
determines the header and the trimmed body of its sources: no body reads as boilerplate and no
boilerplate as a header.
-/

namespace ModulePack

open Text

namespace Wrapper

variable {mark line header : Text} {before rest ls : List Text}

/-- The lines behind the first line `mark` and the empty line that follows it. -/
def behind? (mark : Text) (ls : List Text) : Option (List Text) :=
  match ls.dropWhile (· != mark) with
  | _ :: [] :: rest => some rest
  | _ => none

/-- The lines between the first prologue and the last epilogue, without the empty line inside either
end. -/
def inside? (ls : List Text) : Option (List Text) := do
  let below ← behind? prologue ls
  let upwards ← behind? epilogue below.reverse
  return upwards.reverse

/-- The line moved out by one unit, if it is moved in; an empty line stays empty. -/
def unindent? (line : Text) : Option Text :=
  if line = [] then some [] else after? indentUnit line

/-- The body lines of a module that was wrapped below a header, empty if it has none. -/
def unwrap? (header wrapped : Text) : Option (List Text) := do
  let below ← if header = [] then some wrapped else after? (header ++ lineEnd ++ lineEnd) wrapped
  let inside ← inside? (lines below)
  inside.mapM unindent?

theorem isLine_prologue : IsLine prologue := by decide +kernel

theorem isLine_epilogue : IsLine epilogue := by decide +kernel

theorem epilogue_ne_nil : epilogue ≠ [] := by decide +kernel

theorem exists_prologue_eq : ∃ rest, prologue = '(' :: rest :=
  List.head?_eq_some_iff.1 (by decide +kernel)

theorem behind?_append (h : mark ∉ before) (rest : List Text) :
    behind? mark (before ++ mark :: [] :: rest) = some rest := by
  have hdrop : (before ++ mark :: [] :: rest).dropWhile (· != mark) = mark :: [] :: rest := by
    rw [List.dropWhile_append_of_pos fun line hline => by
      simpa using fun heq : line = mark => h (heq ▸ hline)]
    rw [List.dropWhile_cons_of_neg (by simp)]
  rw [behind?, hdrop]

theorem inside?_append (ls : List Text) :
    inside? (prologue :: [] :: (ls ++ [[], epilogue, []])) = some ls := by
  have hup : (ls ++ [[], epilogue, []]).reverse = [[]] ++ epilogue :: [] :: ls.reverse := by simp
  have hmark : epilogue ∉ [([] : Text)] := by simp [epilogue_ne_nil]
  rw [inside?, ← List.nil_append (prologue :: _), behind?_append List.not_mem_nil, Option.bind_eq_bind,
    Option.bind_some, hup, behind?_append hmark]
  simp

@[simp] theorem unindent?_indent (line : Text) : unindent? (indent line) = some line := by
  rw [indent]
  split
  · simp_all [unindent?]
  · rw [unindent?, if_neg (by simp [indentUnit]), after?_append]

theorem mapM_unindent? (ls : List Text) : (ls.map indent).mapM unindent? = some ls := by
  induction ls with
  | nil => rfl
  | cons line ls ih => simp [List.mapM_cons, ih]

theorem unlines_around (header first body last : Text) :
    unlines ((if header = [] then [] else [header, []]) ++ [first, [], body, [], last]) ++ lineEnd =
      (if header = [] then [] else header ++ lineEnd ++ lineEnd) ++
        (first ++ '\n' :: '\n' :: (body ++ '\n' :: '\n' :: (last ++ ['\n']))) := by
  by_cases h : header = [] <;> simp [h, unlines, join, lineEnd]

theorem wrap_eq (header body : Text) : wrap header body =
    (if header = [] then [] else header ++ lineEnd ++ lineEnd) ++
      (prologue ++ '\n' :: '\n' ::
        (unlines (bodyLines body) ++ '\n' :: '\n' :: (epilogue ++ ['\n']))) :=
  unlines_around header prologue (unlines (bodyLines body)) epilogue

/-- A header is found again at the head of a wrapped text, and the boilerplate is none. -/
theorem extract?_wrap (h : Header.IsHeader header ∨ header = []) (body : Text) :
    (Header.extract? (wrap header body)).map Prod.fst =
      if header = [] then none else some header := by
  rw [wrap_eq]
  split
  · -- the text begins with code
    obtain ⟨rest, hrest⟩ := exists_prologue_eq
    rw [List.nil_append, hrest, List.cons_append, Header.extract?_cons (by decide) (by decide)]
    rfl
  · rename_i hne
    rw [List.append_assoc, List.append_assoc, (h.resolve_right hne).extract?_append]
    rfl

theorem isLine_of_mem_bodyLines {body : Text} (h : line ∈ bodyLines body) : IsLine line := by
  obtain ⟨inner, hinner, rfl⟩ := List.mem_map.1 h
  exact isLine_indent (isLine_of_mem_lines (mem_of_mem_trimBlank hinner))

theorem lines_below (body : Text) :
    lines (prologue ++ '\n' :: '\n' ::
      (unlines (bodyLines body) ++ '\n' :: '\n' :: (epilogue ++ ['\n']))) =
      prologue :: [] :: (orEmptyLine (bodyLines body) ++ [[], epilogue, []]) := by
  rw [lines_line_append isLine_prologue, ← List.nil_append ('\n' :: _), lines_line_append isLine_nil,
    lines_unlines_append fun line => isLine_of_mem_bodyLines, ← List.nil_append ('\n' :: _),
    lines_line_append isLine_nil, lines_line_append isLine_epilogue, show lines [] = [[]] from rfl]

theorem unwrap?_wrap (header body : Text) :
    unwrap? header (wrap header body) = some (orEmptyLine (trimBlank (lines body))) := by
  have hinside : inside? (lines (prologue ++ '\n' :: '\n' ::
      (unlines (bodyLines body) ++ '\n' :: '\n' :: (epilogue ++ ['\n'])))) =
        some ((orEmptyLine (trimBlank (lines body))).map indent) := by
    rw [lines_below, inside?_append, bodyLines, orEmptyLine_map_indent]
  rw [unwrap?, wrap_eq]
  by_cases h : header = []
  · rw [if_pos h, if_pos h, List.nil_append, Option.bind_eq_bind, Option.bind_some]
    simp only [hinside, Option.bind_eq_bind, Option.bind_some, mapM_unindent?]
  · rw [if_neg h, if_neg h, after?_append, Option.bind_eq_bind, Option.bind_some]
    simp only [hinside, Option.bind_eq_bind, Option.bind_some, mapM_unindent?]

end Wrapper

namespace Wrapped

open Wrapper

/-- Either a source has a header, or all of it is body. -/
theorem isHeader_split (source : Text) :
    Header.IsHeader (split source).1 ∨ (split source).1 = [] ∧ Header.extract? source = none := by
  cases h : Header.extract? source with
  | some pieces =>
    refine .inl ⟨source, pieces.2, ?_⟩
    rw [split, h]
    rfl
  | none =>
    refine .inr ⟨?_, rfl⟩
    rw [split, h]
    rfl

/-- The header lifted out of a source is the header of the wrapped text. -/
theorem split_ofSource (source : Text) :
    (split (ofSource source).text).1 = (split source).1 := by
  have hwrap := extract?_wrap ((isHeader_split source).imp_right And.left) (split source).2
  have htext : (ofSource source).text = wrap (split source).1 (split source).2 := rfl
  rw [split, htext]
  by_cases hempty : (split source).1 = []
  · rw [if_pos hempty, Option.map_eq_none_iff] at hwrap
    rw [hwrap, hempty]
    rfl
  · rw [if_neg hempty] at hwrap
    obtain ⟨pieces, hpieces, hfirst⟩ := Option.map_eq_some_iff.1 hwrap
    rw [hpieces]
    exact hfirst

theorem unwrap?_ofSource (source : Text) :
    unwrap? (split source).1 (ofSource source).text =
      some (orEmptyLine (trimBlank (lines (split source).2))) :=
  unwrap?_wrap (split source).1 (split source).2

/-- Unwrapping a wrapped source gives its trimmed body lines, so sources with the same wrapped text
have the same header and the same trimmed body lines. -/
theorem unwraps :
    (∀ source, unwrap? (split source).1 (ofSource source).text =
      some (orEmptyLine (trimBlank (lines (split source).2)))) ∧
    ∀ source source', (ofSource source).text = (ofSource source').text →
      (split source).1 = (split source').1 ∧
      trimBlank (lines (split source).2) = trimBlank (lines (split source').2) := by
  refine ⟨unwrap?_ofSource, fun source source' htext => ?_⟩
  have hheader : (split source).1 = (split source').1 := by
    rw [← split_ofSource source, htext, split_ofSource]
  have hlines : some (orEmptyLine (trimBlank (lines (split source).2))) =
      some (orEmptyLine (trimBlank (lines (split source').2))) := by
    rw [← unwrap?_ofSource, ← unwrap?_ofSource, htext, hheader]
  exact ⟨hheader, trimBlank_eq_of_orEmptyLine (Option.some.inj hlines)⟩

/-- The end of a line and blank lines around the body are all that is lost, even where the body reads
as boilerplate. -/
theorem unwraps_boilerplate :
    let source : Text := "/* Copyright */\r\r\ta;\r\n".toList ++ epilogue ++ "\r\n".toList
    let source' : Text := "/* Copyright */\n\ta;\n".toList ++ epilogue
    source ≠ source' ∧ (ofSource source).text = (ofSource source').text ∧
    (split source).1 = (split source').1 ∧
    trimBlank (lines (split source).2) = trimBlank (lines (split source').2) := by
  have htext : (ofSource ("/* Copyright */\r\r\ta;\r\n".toList ++ epilogue ++ "\r\n".toList)).text =
      (ofSource ("/* Copyright */\n\ta;\n".toList ++ epilogue)).text := by decide +kernel
  exact ⟨by decide, htext, unwraps.2 _ _ htext⟩

end Wrapped

end ModulePack
