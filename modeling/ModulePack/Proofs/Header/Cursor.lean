import ModulePack.Proofs.Header.Layout
import ModulePack.Proofs.Text.Slices

/-!
# Extraction with a cursor

The header found by a cursor that counts bytes of UTF-8 and cuts the text where it stands. A cut
inside a character or behind the end of the text is none at all; `extractAt?_eq` says that there is
no such cut and that the result is that of `extract?`. With the layouts of headers this makes
`extract?_accepts`: a header is extracted exactly from the texts that begin with one.
-/

namespace ModulePack

namespace Text

/-- How many bytes stand before the first occurrence of a mark. -/
def find? (mark s : Text) : Option Nat := (cut? mark s).map fun (before, _) => before.byteCount

end Text

namespace Header

open Text

/-- The end of the header in `s`, from a cursor behind comments that are no notice. Each cut is
asked for in turn, and the answer is none at all if there is no such cut. -/
def scanFrom? (s : Text) (cursor : Nat) : Option (Option Nat) :=
  match h : dropBytes? cursor s with
  | none => none
  | some rest =>
    let start := cursor + (rest.byteCount - rest.trimStart.byteCount)
    match dropBytes? start s with
    | none => none
    | some here =>
      match after? opening here with
      | none => some none
      | some inner =>
        match find? closing inner with
        | none => some none
        | some offset =>
          let stop := start + offset + 4
          match slice? start stop s with
          | none => none
          | some comment =>
            if mentionsCopyright comment then some (some stop)
            else
              have := le_byteCount_of_dropBytes h
              scanFrom? s stop
termination_by s.byteCount + 1 - cursor

/-- The header of a source and the source behind it, or that there is none; no answer if a cut
fails. -/
def extractAt? (source : Text) : Option (Option (Text × Text)) :=
  let s := source.trimStart
  match scanFrom? s 0 with
  | none => none
  | some none => some none
  | some (some stop) => do
    let header ← takeBytes? stop s
    let rest ← dropBytes? stop s
    return some (header, rest.trimStart)

/-- From behind a part of the text, the cursor moves past the next comment. -/
theorem scanFrom?_append (done : Text) {gap t : Text} (hgap : isBlank gap = true) (ht : Flush t) :
    scanFrom? (done ++ (gap ++ t)) done.byteCount =
      match comment? t with
      | none => some none
      | some (comment, _) =>
        if mentionsCopyright comment then some (some (done ++ gap ++ comment).byteCount)
        else scanFrom? (done ++ (gap ++ t)) (done ++ gap ++ comment).byteCount := by
  have htrim : (gap ++ t).trimStart = t := dropWhile_append_flush hgap ht
  have hstart : done.byteCount + ((gap ++ t).byteCount - t.byteCount) =
      (done ++ gap).byteCount := by
    simp only [byteCount_append]
    omega
  have hhere : dropBytes? (done ++ gap).byteCount (done ++ (gap ++ t)) = some t := by
    rw [← List.append_assoc]
    exact dropBytes?_append _ _
  rw [scanFrom?]
  split
  · rename_i h
    rw [dropBytes?_append] at h
    cases h
  rename_i rest h
  rw [dropBytes?_append] at h
  obtain rfl := Option.some.inj h
  simp only [htrim, hstart, hhere, comment?, Option.bind_eq_bind]
  cases hinner : after? opening t with
  | none => rfl
  | some inner =>
    simp only [Option.bind_some, find?]
    cases hcut : cut? closing inner with
    | none => rfl
    | some pieces =>
      obtain ⟨body, rest⟩ := pieces
      -- the two marks take two bytes each
      have hstop : (done ++ gap).byteCount + body.byteCount + 4 =
          (done ++ gap ++ (opening ++ body ++ closing)).byteCount := by
        have hopening : opening.byteCount = 2 := by decide
        have hclosing : closing.byteCount = 2 := by decide
        simp only [byteCount_append, hopening, hclosing]
        omega
      have ht' : t = opening ++ body ++ closing ++ rest := by
        rw [after?_eq_some_iff.1 hinner, cut?_eq_some hcut]
        simp
      have hslice : slice? (done ++ gap).byteCount
          (done ++ gap ++ (opening ++ body ++ closing)).byteCount (done ++ (gap ++ t)) =
            some (opening ++ body ++ closing) := by
        rw [ht', ← List.append_assoc done gap]
        exact slice?_append (done ++ gap) (opening ++ body ++ closing) rest
      simp only [Option.map_some, Option.bind_some, hstop, hslice]
      rfl

/-- The cursor stops at the end of what the scan takes. -/
theorem scanFrom?_eq (done s : Text) : scanFrom? (done ++ s) done.byteCount =
    some ((scan? s).map fun (header, _) => (done ++ header).byteCount) := by
  have hgap (s : Text) : s.takeWhile isSpace ++ s.trimStart = s := List.takeWhile_append_dropWhile
  have hstep (done s : Text) := scanFrom?_append done (isBlank_takeWhile s) (flush_trimStart s)
  simp only [hgap] at hstep
  fun_induction scan? s generalizing done with
  | case1 s hcomment =>
    rw [hstep, show comment? s.trimStart = none from hcomment]
    rfl
  | case2 s gap c after hcomment =>
    rename_i hnote
    rw [hstep, show comment? s.trimStart = some (c, after) from hcomment]
    simp [hnote, gap]
  | case3 s gap c after hcomment =>
    rename_i hnot _ ih
    have hs : done ++ s = done ++ gap ++ c ++ after := by
      conv_lhs => rw [← hgap s, show s.trimStart = c ++ after from comment?_eq_append hcomment]
      simp [gap]
    rw [hstep, show comment? s.trimStart = some (c, after) from hcomment]
    simp only [hnot, Bool.false_eq_true, if_false]
    rw [hs, show s.takeWhile isSpace = gap from rfl, ih]
    simp [Option.map_map, Function.comp_def]

/-- No cut fails, and the header found is the same. -/
theorem extractAt?_eq (source : Text) : extractAt? source = some (extract? source) := by
  have hscan := scanFrom?_eq [] source.trimStart
  rw [List.nil_append, byteCount_nil] at hscan
  rw [extractAt?, extract?]
  simp only [hscan]
  cases h : scan? source.trimStart with
  | none => rfl
  | some pieces =>
    obtain ⟨header, rest⟩ := pieces
    simp only [Option.map_some, List.nil_append]
    rw [append_of_scan h, takeBytes?_append, dropBytes?_append]
    rfl

/-- A header is extracted exactly from the texts that begin with one, in the one way to cut them, and
every cut of the cursor falls between two characters of the text. -/
theorem extract?_accepts (s : Text) :
    (∀ header rest, extract? s = some (header, rest) ↔
      ∃ l : Layout, l.Of s ∧ l.header = header ∧ l.rest = rest) ∧
    (extract? s = none ↔ ¬∃ l : Layout, l.Of s) ∧
    (∀ l l' : Layout, l.Of s → l'.Of s → l = l') ∧
    extractAt? s = some (extract? s) := by
  refine ⟨fun header rest => ⟨Layout.exists_of_extract, ?_⟩, ?_, fun l l' => Layout.Of.unique,
    extractAt?_eq s⟩
  · rintro ⟨l, hl, rfl, rfl⟩
    exact hl.extract?
  · constructor
    · rintro hnone ⟨l, hl⟩
      rw [hl.extract?] at hnone
      cases hnone
    · intro hno
      cases h : extract? s with
      | none => rfl
      | some pieces =>
        obtain ⟨header, rest⟩ := pieces
        obtain ⟨l, hl, -⟩ := Layout.exists_of_extract h
        exact absurd ⟨l, hl⟩ hno

/-- A comment that is no notice belongs to the header if a notice follows it, however close the marks
stand; one that is never closed does not. -/
theorem extract?_accepts_close :
    let s : Text := "\ufeff/*/ **//* COPYRIGHT*/\tvar a;".toList
    (∃ l : Layout, l.Of s ∧ l.header = "/*/ **//* COPYRIGHT*/".toList ∧ l.rest = "var a;".toList) ∧
    ¬∃ l : Layout, l.Of "/**/ /* copyright".toList :=
  ⟨((extract?_accepts _).1 _ _).1 (by decide +kernel),
    (extract?_accepts _).2.1.1 (by decide +kernel)⟩

end Header

end ModulePack
