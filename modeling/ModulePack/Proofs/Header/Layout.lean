import Mathlib.Data.List.TakeWhile
import ModulePack.Header
import ModulePack.Proofs.Text.Search

/-!
# The layout of a header

A `Layout` is a text cut into the pieces of a copyright header: white space, comments with white
space between them, the notice, and what follows. `scan?_eq_some_iff` says that the scan accepts
exactly the texts that can be cut so, and `Pieces.unique` that there is one way at most.
-/

namespace ModulePack

namespace Text

variable {s t gap : Text} {c : Char}

/-- A text that does not begin with white space. -/
def Flush (s : Text) : Prop := ∀ c, s.head? = some c → isSpace c = false

theorem flush_cons : Flush (c :: s) ↔ isSpace c = false := by simp [Flush]

theorem flush_trimStart (s : Text) : Flush s.trimStart := fun c hc => by
  have := List.head?_dropWhile_not isSpace s
  rw [trimStart] at hc
  simpa [hc] using this

theorem dropWhile_append_flush (hgap : isBlank gap = true) (hs : Flush s) :
    (gap ++ s).dropWhile isSpace = s := by
  rw [List.dropWhile_append_of_pos fun c hc => List.all_eq_true.1 hgap c hc]
  cases s with
  | nil => rfl
  | cons c s => rw [List.dropWhile_cons_of_neg (by simp [flush_cons.1 hs])]

theorem takeWhile_append_flush (hgap : isBlank gap = true) (hs : Flush s) :
    (gap ++ s).takeWhile isSpace = gap := by
  rw [List.takeWhile_append_of_pos fun c hc => List.all_eq_true.1 hgap c hc]
  cases s with
  | nil => simp
  | cons c s => rw [List.takeWhile_cons_of_neg (by simp [flush_cons.1 hs]), List.append_nil]

theorem isBlank_takeWhile (s : Text) : isBlank (s.takeWhile isSpace) = true :=
  List.all_eq_true.2 fun _ hc => List.mem_takeWhile_imp hc

theorem exists_gap (s : Text) : ∃ gap, isBlank gap = true ∧ s = gap ++ s.trimStart :=
  ⟨s.takeWhile isSpace, isBlank_takeWhile s, (List.takeWhile_append_dropWhile ..).symm⟩

/-- A text is cut in one way into white space and what follows it. -/
theorem gap_unique {gap' : Text} (hgap : isBlank gap = true) (hs : Flush s)
    (hgap' : isBlank gap' = true) (ht : Flush t) (h : gap ++ s = gap' ++ t) :
    gap = gap' ∧ s = t := by
  constructor
  · rw [← takeWhile_append_flush hgap hs, h, takeWhile_append_flush hgap' ht]
  · rw [← dropWhile_append_flush hgap hs, h, dropWhile_append_flush hgap' ht]

end Text

namespace Header

open Text

/-- A comment with a given text between its marks. -/
def comment (body : Text) : Text := opening ++ body ++ closing

/-- A text that can stand in a comment. -/
def IsBody (body : Text) : Prop := ¬closing <:+: body

/-- The comment says something about a copyright. -/
def IsNotice (body : Text) : Prop := token <:+: (comment body).asciiLower

variable {s rest body body' gap : Text} {others : List (Text × Text)}

theorem flush_comment_append (body rest : Text) : Flush (comment body ++ rest) :=
  flush_cons.2 (by decide)

theorem comment?_eq_some_iff {c : Text} :
    comment? s = some (c, rest) ↔ ∃ body, IsBody body ∧ comment body = c ∧ s = c ++ rest := by
  have hbody : ∀ body, ¬closing <:+: body ++ closing.dropLast ↔ IsBody body := by
    intro body
    rw [IsBody, not_iff_not]
    refine ⟨fun h => ?_, fun h => h.trans (List.prefix_append ..).isInfix⟩
    rcases List.infix_concat_iff.1 (show closing <:+: body ++ ['*'] from h) with hsuffix | h
    · -- a comment does not end in a star
      have := hsuffix.getLast (by decide)
      simp [closing] at this
    · exact h
  simp only [comment?, Option.bind_eq_bind, Option.bind_eq_some_iff, after?_eq_some_iff,
    cut?_eq_some_iff (show closing ≠ [] by decide), hbody, Prod.exists]
  constructor
  · rintro ⟨inner, rfl, body, r, ⟨rfl, hb⟩, h⟩
    obtain ⟨rfl, rfl⟩ : opening ++ body ++ closing = c ∧ r = rest := by simpa using h
    exact ⟨body, hb, rfl, by simp⟩
  · rintro ⟨body, hb, rfl, rfl⟩
    exact ⟨body ++ closing ++ rest, by simp [comment], body, rest, ⟨rfl, hb⟩, by simp [comment]⟩

theorem comment?_comment_append (hbody : IsBody body) (rest : Text) :
    comment? (comment body ++ rest) = some (comment body, rest) :=
  comment?_eq_some_iff.2 ⟨body, hbody, rfl, rfl⟩

theorem comment_injective (h : comment body = comment body') : body = body' := by
  rw [comment, comment, List.append_assoc, List.append_assoc] at h
  exact List.append_cancel_right (List.append_cancel_left h)

theorem mentionsCopyright_comment : mentionsCopyright (comment body) = true ↔ IsNotice body :=
  mentions_iff

/-! ### Runs of comments -/

/-- Comments with the white space behind each. -/
def run (others : List (Text × Text)) : Text :=
  others.flatMap fun other => comment other.1 ++ other.2

/-- Comments, none of them a notice, that a notice may follow. -/
def IsRun (others : List (Text × Text)) : Prop :=
  ∀ other ∈ others, IsBody other.1 ∧ isBlank other.2 = true ∧ ¬IsNotice other.1

theorem run_cons (body gap : Text) (others : List (Text × Text)) :
    run ((body, gap) :: others) = comment body ++ (gap ++ run others) := by simp [run]

theorem isRun_cons : IsRun ((body, gap) :: others) ↔
    (IsBody body ∧ isBlank gap = true ∧ ¬IsNotice body) ∧ IsRun others := by
  simp [IsRun]

theorem flush_run (others : List (Text × Text)) (notice rest : Text) :
    Flush (run others ++ (comment notice ++ rest)) := by
  cases others with
  | nil => exact flush_comment_append notice rest
  | cons other others =>
    rw [run_cons, List.append_assoc]
    exact flush_comment_append _ _

theorem scan?_comment_append (hgap : isBlank gap = true) (hbody : IsBody body) (rest : Text) :
    scan? (gap ++ (comment body ++ rest)) =
      if mentionsCopyright (comment body) then some (gap ++ comment body, rest)
      else (scan? rest).map fun (header, after) => (gap ++ comment body ++ header, after) := by
  have hflush := flush_comment_append body rest
  have hcomment : comment? ((gap ++ (comment body ++ rest)).dropWhile isSpace) =
      some (comment body, rest) := by
    rw [dropWhile_append_flush hgap hflush, comment?_comment_append hbody]
  rw [scan?, takeWhile_append_flush hgap hflush]
  split
  · rename_i h
    rw [hcomment] at h
    cases h
  · rename_i c r h
    rw [hcomment] at h
    obtain ⟨rfl, rfl⟩ : comment body = c ∧ rest = r := by simpa using h
    rfl

theorem scan?_run {notice : Text} (hothers : IsRun others) (hnotice : IsBody notice)
    (hnote : IsNotice notice) (hgap : isBlank gap = true) (rest : Text) :
    scan? (gap ++ (run others ++ (comment notice ++ rest))) =
      some (gap ++ (run others ++ comment notice), rest) := by
  induction others generalizing gap with
  | nil =>
    rw [show run [] = [] from rfl, List.nil_append, List.nil_append,
      scan?_comment_append hgap hnotice, if_pos (mentionsCopyright_comment.2 hnote)]
  | cons other others ih =>
    obtain ⟨body, gap'⟩ := other
    obtain ⟨⟨hbody, hgap', hnot⟩, hothers⟩ := isRun_cons.1 hothers
    rw [run_cons, List.append_assoc, scan?_comment_append hgap hbody,
      if_neg (mt mentionsCopyright_comment.1 hnot), List.append_assoc, ih hothers hgap']
    simp

theorem exists_run_of_scan {header : Text} (h : scan? s = some (header, rest)) :
    ∃ gap others notice, isBlank gap = true ∧ IsRun others ∧ IsBody notice ∧ IsNotice notice ∧
      header = gap ++ (run others ++ comment notice) := by
  fun_induction scan? s generalizing header with
  | case1 => cases h
  | case2 s gap c after hcomment =>
    rename_i hnote
    obtain ⟨rfl, rfl⟩ : gap ++ c = header ∧ after = rest := by simpa using h
    obtain ⟨notice, hnotice, rfl, -⟩ := comment?_eq_some_iff.1 hcomment
    exact ⟨gap, [], notice, isBlank_takeWhile s, by simp [IsRun], hnotice,
      mentionsCopyright_comment.1 hnote, rfl⟩
  | case3 s gap c after hcomment =>
    rename_i hnot _ ih
    obtain ⟨⟨inner, r⟩, hscan, heq⟩ := Option.map_eq_some_iff.1 h
    obtain ⟨rfl, rfl⟩ : gap ++ c ++ inner = header ∧ r = rest := by simpa using heq
    obtain ⟨body, hbody, rfl, -⟩ := comment?_eq_some_iff.1 hcomment
    obtain ⟨gap', others, notice, hgap', hothers, hnotice, hnote, rfl⟩ := ih hscan
    refine ⟨gap, (body, gap') :: others, notice, isBlank_takeWhile s, ?_, hnotice, hnote, ?_⟩
    · exact isRun_cons.2 ⟨⟨hbody, hgap', mt mentionsCopyright_comment.2 hnot⟩, hothers⟩
    · simp [run_cons]

theorem comment_append_unique {s' : Text} (hbody : IsBody body) (hbody' : IsBody body')
    (h : comment body ++ s = comment body' ++ s') : body = body' ∧ s = s' := by
  have hcomment := comment?_comment_append hbody s
  rw [h, comment?_comment_append hbody' s'] at hcomment
  obtain ⟨hsame, rfl⟩ : comment body' = comment body ∧ s' = s := by simpa using hcomment
  exact ⟨(comment_injective hsame).symm, rfl⟩

theorem run_unique {others' : List (Text × Text)} {notice notice' rest' : Text}
    (hothers : IsRun others) (hnotice : IsBody notice) (hnote : IsNotice notice)
    (hothers' : IsRun others') (hnotice' : IsBody notice') (hnote' : IsNotice notice')
    (h : run others ++ (comment notice ++ rest) = run others' ++ (comment notice' ++ rest')) :
    others = others' ∧ notice = notice' ∧ rest = rest' := by
  -- a comment is a notice or not, so neither run ends before the other
  induction others generalizing others' with
  | nil =>
    cases others' with
    | nil =>
      obtain ⟨rfl, rfl⟩ := comment_append_unique hnotice hnotice' h
      exact ⟨rfl, rfl, rfl⟩
    | cons other others' =>
      obtain ⟨⟨hbody, -, hnot⟩, -⟩ := isRun_cons.1 hothers'
      rw [run_cons, List.append_assoc] at h
      obtain ⟨rfl, -⟩ := comment_append_unique hnotice hbody h
      exact absurd hnote hnot
  | cons other others ih =>
    obtain ⟨⟨hbody, hgap, hnot⟩, hothers⟩ := isRun_cons.1 hothers
    rw [run_cons, List.append_assoc] at h
    cases others' with
    | nil =>
      obtain ⟨rfl, -⟩ := comment_append_unique hbody hnotice' h
      exact absurd hnote' hnot
    | cons other' others' =>
      obtain ⟨⟨hbody', hgap', -⟩, hothers'⟩ := isRun_cons.1 hothers'
      rw [run_cons, List.append_assoc (comment other'.1)] at h
      obtain ⟨hsame, h⟩ := comment_append_unique hbody hbody' h
      rw [List.append_assoc, List.append_assoc] at h
      obtain ⟨hsame', h⟩ := gap_unique hgap (flush_run _ _ _) hgap' (flush_run _ _ _) h
      obtain ⟨rfl, rfl, rfl⟩ := ih hothers hothers' h
      exact ⟨by rw [Prod.ext hsame hsame'], rfl, rfl⟩

/-! ### Layouts -/

/-- The pieces of a text that begins with a header. -/
structure Layout where
  /-- White space before the header. -/
  margin : Text
  /-- The comments before the notice, each with the white space behind it. -/
  others : List (Text × Text)
  notice : Text
  /-- White space behind the header. -/
  gap : Text
  rest : Text

namespace Layout

variable {l l' : Layout}

def header (l : Layout) : Text := run l.others ++ comment l.notice

/-- The text is cut into the pieces of the layout. -/
structure Of (l : Layout) (s : Text) : Prop where
  text : s = l.margin ++ l.header ++ l.gap ++ l.rest
  margin : isBlank l.margin = true
  others : IsRun l.others
  body : IsBody l.notice
  notice : IsNotice l.notice
  gap : isBlank l.gap = true
  rest : Flush l.rest

theorem Of.text_eq (h : l.Of s) :
    s = l.margin ++ (run l.others ++ (comment l.notice ++ (l.gap ++ l.rest))) := by
  rw [h.text, Layout.header]
  simp

theorem Of.extract? (h : l.Of s) : extract? s = some (l.header, l.rest) := by
  have htrim : s.trimStart = run l.others ++ (comment l.notice ++ (l.gap ++ l.rest)) := by
    rw [h.text_eq, trimStart, dropWhile_append_flush h.margin (flush_run _ _ _)]
  have hscan := scan?_run h.others h.body h.notice (show isBlank [] = true from rfl) (l.gap ++ l.rest)
  rw [List.nil_append, ← htrim] at hscan
  have hrest : (l.gap ++ l.rest).trimStart = l.rest := dropWhile_append_flush h.gap h.rest
  rw [Header.extract?, hscan, Option.map_some]
  simp only [hrest]
  rfl

theorem exists_of_extract {header : Text} (h : Header.extract? s = some (header, rest)) :
    ∃ l : Layout, l.Of s ∧ l.header = header ∧ l.rest = rest := by
  obtain ⟨⟨header', after⟩, hscan, heq⟩ := Option.map_eq_some_iff.1 h
  obtain ⟨rfl, rfl⟩ : header' = header ∧ after.trimStart = rest := by simpa using heq
  obtain ⟨gap, others, notice, hgap, hothers, hnotice, hnote, rfl⟩ := exists_run_of_scan hscan
  have htrim := append_of_scan hscan
  -- there is no white space left in front
  have hflush := flush_run others notice after
  obtain ⟨rfl, -⟩ := gap_unique hgap hflush (show isBlank [] = true from rfl) (flush_trimStart s)
    (by rw [htrim]; simp)
  obtain ⟨margin, hmargin, hs⟩ := exists_gap s
  obtain ⟨behind, hbehind, hafter⟩ := exists_gap after
  refine ⟨⟨margin, others, notice, behind, after.trimStart⟩, ⟨?_, hmargin, hothers, hnotice, hnote,
    hbehind, flush_trimStart after⟩, rfl, rfl⟩
  conv_lhs => rw [hs, htrim, hafter]
  simp [Layout.header]

theorem Of.unique (h : l.Of s) (h' : l'.Of s) : l = l' := by
  obtain ⟨margin, others, notice, gap, rest⟩ := l
  obtain ⟨margin', others', notice', gap', rest'⟩ := l'
  obtain ⟨rfl, heq⟩ := gap_unique h.margin (flush_run _ _ _) h'.margin (flush_run _ _ _)
    (h.text_eq.symm.trans h'.text_eq)
  obtain ⟨rfl, rfl, heq⟩ :=
    run_unique h.others h.body h.notice h'.others h'.body h'.notice heq
  obtain ⟨rfl, rfl⟩ := gap_unique h.gap h.rest h'.gap h'.rest heq
  rfl

end Layout

/-- Code in front leaves no room for a header. -/
theorem extract?_cons {c : Char} (hspace : isSpace c = false) (hc : c ≠ '/') (s : Text) :
    extract? (c :: s) = none := by
  have hflush : (c :: s).dropWhile isSpace = c :: s :=
    List.dropWhile_cons_of_neg (by simp [hspace])
  have hcomment : comment? (c :: s) = none := by
    simp [comment?, opening, after?, Ne.symm hc]
  rw [extract?, trimStart, hflush, scan?]
  split
  · rfl
  · rename_i h
    rw [hflush, hcomment] at h
    cases h

theorem extract?_header_append {header : Text} (h : extract? s = some (header, rest)) (t : Text) :
    extract? (header ++ t) = some (header, t.trimStart) := by
  obtain ⟨l, hl, rfl, -⟩ := Layout.exists_of_extract h
  obtain ⟨gap, hgap, ht⟩ := exists_gap t
  have hmoved : Layout.Of ⟨[], l.others, l.notice, gap, t.trimStart⟩ (l.header ++ t) := by
    refine ⟨?_, rfl, hl.others, hl.body, hl.notice, hgap, flush_trimStart t⟩
    conv_lhs => rw [ht]
    simp [Layout.header]
  exact hmoved.extract?

/-- The text is the header of some source. -/
def IsHeader (header : Text) : Prop := ∃ source rest, extract? source = some (header, rest)

theorem IsHeader.extract?_append {header : Text} (h : IsHeader header) (t : Text) :
    extract? (header ++ t) = some (header, t.trimStart) := by
  obtain ⟨source, rest, h⟩ := h
  exact extract?_header_append h t

theorem not_isHeader_nil : ¬IsHeader [] := by
  intro h
  have hcode := h.extract?_append "a".toList
  rw [List.nil_append, show "a".toList = 'a' :: [] from rfl,
    extract?_cons (by decide) (by decide)] at hcode
  cases hcode

end Header

end ModulePack
