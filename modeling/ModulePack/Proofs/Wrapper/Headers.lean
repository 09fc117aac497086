import ModulePack.Entry
import ModulePack.Proofs.Wrapper.Unwrap

/-!
# Headers that stay headers

A run of wrapping remembers the header of every source in turn (`Wrapping.headers_addAll`), so that
the shared one is that of them all (`Wrapping.shared?_addAll`). Each of them is found again at the
head of the text that it stands over: `headers_survive` says so of a text that is wrapped twice and
of an entry.
-/

namespace ModulePack

open Wrapper

variable {w : Wrapping} {source header : Text} {sources : List Text}

namespace Wrapped

theorem header_ofSource (source : Text) :
    (ofSource source).header = ((Header.extract? source).map Prod.fst).getD [] := by
  show (split source).1 = _
  rw [split]
  cases Header.extract? source <;> rfl

theorem header_ofSource_eq_iff (hne : header ≠ []) :
    (ofSource source).header = header ↔ ∃ rest, Header.extract? source = some (header, rest) := by
  rw [header_ofSource]
  cases Header.extract? source with
  | none => simp [Ne.symm hne]
  | some pieces => simp [Prod.ext_iff]

/-- Wrapped text has the header of its source, and none if the source has none. -/
theorem extract?_ofSource (source : Text) : (Header.extract? (ofSource source).text).map Prod.fst =
    (Header.extract? source).map Prod.fst := by
  have hheader := isHeader_split source
  have hwrap : (Header.extract? (ofSource source).text).map Prod.fst =
      if (split source).1 = [] then none else some (split source).1 :=
    extract?_wrap (hheader.imp_right And.left) (split source).2
  rw [hwrap]
  rcases hheader with hheader | ⟨hempty, hnone⟩
  · have hne : (split source).1 ≠ [] := fun hempty => Header.not_isHeader_nil (hempty ▸ hheader)
    obtain ⟨rest, h⟩ := (header_ofSource_eq_iff hne).1 rfl
    rw [if_neg hne, h]
    rfl
  · rw [if_pos hempty, hnone]
    rfl

end Wrapped

namespace Wrapping

/-- The sources wrapped one after another. -/
def addAll (w : Wrapping) : List Text → List Wrapped × Wrapping
  | [] => ([], w)
  | source :: rest =>
    let (wrapped, next) := w.add source
    let (more, last) := next.addAll rest
    (wrapped :: more, last)

theorem wrapped_addAll (w : Wrapping) (sources : List Text) :
    (w.addAll sources).1 = sources.map Wrapped.ofSource := by
  induction sources generalizing w with
  | nil => rfl
  | cons source rest ih => exact congrArg (Wrapped.ofSource source :: ·) (ih _)

theorem headers_add (w : Wrapping) (source : Text) :
    (w.add source).2.headers = w.headers ++ [(w.add source).1.header] := rfl

/-- The headers are those of the texts that were made, in order. -/
theorem headers_addAll (w : Wrapping) (sources : List Text) :
    (w.addAll sources).2.headers = w.headers ++ (w.addAll sources).1.map Wrapped.header := by
  induction sources generalizing w with
  | nil => exact (List.append_nil _).symm
  | cons source rest ih =>
    have hrest := ih (w.add source).2
    rw [headers_add, List.append_assoc, List.singleton_append] at hrest
    exact hrest

theorem headers_addAll_new (sources : List Text) : (new.addAll sources).2.headers =
    sources.map fun source => (Wrapped.ofSource source).header := by
  rw [headers_addAll, wrapped_addAll, List.map_map]
  rfl

theorem shared?_addAll : (new.addAll sources).2.shared? = some header ↔
    sources ≠ [] ∧ ∀ source ∈ sources, (Wrapped.ofSource source).header = header := by
  rw [shared?, sharedHeader?_eq_some_iff, headers_addAll_new, List.forall_mem_map, ne_eq,
    List.map_eq_nil_iff]

/-- Nothing but headers is remembered. -/
def Sound (w : Wrapping) : Prop := ∀ header ∈ w.headers, Header.IsHeader header ∨ header = []

theorem sound_new : new.Sound := fun _ h => nomatch h

theorem Sound.add (h : w.Sound) (source : Text) : (w.add source).2.Sound := by
  intro header hheader
  rcases List.mem_append.1 (headers_add w source ▸ hheader) with hheader | hheader
  · exact h header hheader
  · rw [List.mem_singleton.1 hheader]
    exact (Wrapped.isHeader_split source).imp_right And.left

theorem Sound.addAll (h : w.Sound) (sources : List Text) : (w.addAll sources).2.Sound := by
  induction sources generalizing w with
  | nil => exact h
  | cons source rest ih => exact ih (h.add source)

theorem mem_of_shared (h : w.shared? = some header) : header ∈ w.headers := by
  obtain ⟨hne, hall⟩ := sharedHeader?_eq_some_iff.1 h
  obtain ⟨first, rest, hcons⟩ := List.exists_cons_of_ne_nil hne
  have hmem : first ∈ w.headers := hcons ▸ List.mem_cons_self ..
  exact hall first hmem ▸ hmem

end Wrapping

/-- A header is found again at the head of any text. So a source that is wrapped twice keeps its
header, and an entry has the header that it is given, if that was lifted out of a source. -/
theorem headers_survive :
    (∀ source header rest t, Header.extract? source = some (header, rest) →
      Header.extract? (header ++ t) = some (header, t.trimStart)) ∧
    (∀ (w w' : Wrapping) (source : Text),
      (w'.add (w.add source).1.text).1.header = (w.add source).1.header ∧
      (Header.extract? (w.add source).1.text).map Prod.fst =
        (Header.extract? source).map Prod.fst) ∧
    ∀ sources header,
      header ∈ (Wrapping.new.addAll sources).2.headers ∨
        (Wrapping.new.addAll sources).2.shared? = some header →
      ∀ version names, (Header.extract? (Entry.text header version names)).map Prod.fst =
        if header = [] then none else some header := by
  refine ⟨fun _ _ _ t h => Header.extract?_header_append h t, fun w w' source => ⟨?_, ?_⟩, ?_⟩
  · exact Wrapped.split_ofSource source
  · exact Wrapped.extract?_ofSource source
  · intro sources header hheader version names
    have hmem := hheader.elim id Wrapping.mem_of_shared
    exact extract?_wrap (Wrapping.sound_new.addAll sources header hmem) _

/-- Comments before the notice belong to a header, those behind it do not. -/
theorem headers_survive_notice :
    let source : Text := " /* a */ /* COPYRIGHT */ /* b */".toList
    let header : Text := "/* a */ /* COPYRIGHT */".toList
    Header.extract? (header ++ "\n/* Copyright */".toList) =
      some (header, "/* Copyright */".toList) ∧
    (Wrapped.ofSource (Wrapped.ofSource source).text).header = header ∧
    (Header.extract? (Entry.text header none ["a.js".toList])).map Prod.fst = some header := by
  intro source header
  have hextract : Header.extract? source = some (header, "/* b */".toList) := by decide +kernel
  have hheader : (Wrapped.ofSource source).header = header := by
    rw [Wrapped.header_ofSource, hextract]
    rfl
  have hmem : header ∈ (Wrapping.new.addAll [source]).2.headers := by
    rw [← hheader]
    exact List.mem_singleton_self _
  refine ⟨headers_survive.1 source header _ _ hextract, ?_, ?_⟩
  · rw [← hheader]
    exact (headers_survive.2.1 .new .new source).1
  · exact headers_survive.2.2 [source] header (.inl hmem) none _

end ModulePack
