import Mathlib.Data.List.DropRight
import ModulePack.Proofs.Text.Lines
import ModulePack.Proofs.Text.Slices

/-!
# Lines in other ways

The lines of a text are what is left between line ends once all of these have been made the same
(`lines_eq_splitOn`), and what a cursor cuts out that goes over the bytes of the text
(`linesAt?_eq`). Trimmed lines are the middle that blank lines leave (`isMiddle_iff`), and what is
between the first and the last line that is not blank (`trimAt?_eq`).
-/

namespace ModulePack.Text

variable {mark s rest line done : Text} {c : Char} {mid ls : List Text} {start i : Nat} {x : UInt8}

/-! ### Line ends made the same -/

/-- The text with every occurrence of a mark replaced, from the left. -/
def replace (mark substitute : Text) : Text → Text
  | [] => []
  | c :: s =>
    match after? mark (c :: s) with
    | some rest =>
      -- an empty mark occurs nowhere
      if rest.length ≤ s.length then substitute ++ replace mark substitute rest
      else c :: replace mark substitute s
    | none => c :: replace mark substitute s
termination_by s => s.length

@[simp] theorem replace_nil (mark substitute : Text) : replace mark substitute [] = [] := by
  rw [replace]

theorem replace_append (hmark : mark ≠ []) (substitute rest : Text) :
    replace mark substitute (mark ++ rest) = substitute ++ replace mark substitute rest := by
  obtain ⟨m, more, rfl⟩ := List.exists_cons_of_ne_nil hmark
  have hlen : rest.length ≤ (more ++ rest).length := by simp
  rw [List.cons_append, replace, ← List.cons_append, after?_append]
  exact if_pos hlen

theorem replace_cons (h : after? mark (c :: s) = none) (substitute : Text) :
    replace mark substitute (c :: s) = c :: replace mark substitute s := by
  rw [replace, h]

/-- The text with every CR LF, and then every other CR, made LF. -/
def uniformEnds (s : Text) : Text := replace ['\r'] ['\n'] (replace ['\r', '\n'] ['\n'] s)

theorem uniformEnds_pair (s : Text) : uniformEnds ('\r' :: '\n' :: s) = '\n' :: uniformEnds s := by
  have hpair : replace ['\r', '\n'] ['\n'] (['\r', '\n'] ++ s) =
      ['\n'] ++ replace ['\r', '\n'] ['\n'] s := replace_append (by simp) _ s
  simp only [List.cons_append, List.nil_append] at hpair
  rw [uniformEnds, hpair, replace_cons (by simp [after?]), uniformEnds]

theorem uniformEnds_end (hc : c = '\n' ∨ c = '\r') (hs : c = '\r' → s.head? ≠ some '\n') :
    uniformEnds (c :: s) = '\n' :: uniformEnds s := by
  have hpair : after? ['\r', '\n'] (c :: s) = none := by
    rcases hc with rfl | rfl
    · simp [after?]
    · cases s with
      | nil => rfl
      | cons d s =>
        have hd : '\n' ≠ d := fun h => hs rfl (by rw [h, List.head?_cons])
        simp [after?, hd]
  rw [uniformEnds, replace_cons hpair]
  rcases hc with rfl | rfl
  · rw [replace_cons (by simp [after?]), uniformEnds]
  · exact replace_append (List.cons_ne_nil '\r' []) ['\n'] _

theorem uniformEnds_cons (hc : ¬(c = '\n' ∨ c = '\r')) (s : Text) :
    uniformEnds (c :: s) = c :: uniformEnds s := by
  have hr : '\r' ≠ c := fun h => hc (.inr h.symm)
  rw [uniformEnds, replace_cons (by simp [after?, hr]), replace_cons (by simp [after?, hr]),
    uniformEnds]

theorem lines_eq_splitOn (s : Text) : lines s = (uniformEnds s).splitOn '\n' := by
  have hend (s : Text) : ('\n' :: s).splitOn '\n' = [] :: s.splitOn '\n' := by
    rw [List.splitOn_cons_eq_if_modifyHead, beq_self_eq_true, if_pos rfl]
  fun_induction lines s with
  | case1 => simp [uniformEnds]
  | case2 s ih => rw [uniformEnds_pair, ih, hend]
  | case3 c s hpair hc ih =>
    have hs : c = '\r' → s.head? ≠ some '\n' := by
      rintro rfl hn
      obtain ⟨s, rfl⟩ := List.head?_eq_some_iff.1 hn
      exact hpair s rfl rfl
    rw [uniformEnds_end hc hs, ih, hend]
  | case4 c s _ _ hs => exact absurd hs (lines_ne_nil s)
  | case5 c s _ hc first rest hs ih =>
    have hn : ¬(c == '\n') = true := fun h => hc (.inl (beq_iff_eq.1 h))
    rw [uniformEnds_cons hc, List.splitOn_cons_eq_if_modifyHead, if_neg hn, ← ih, hs]
    rfl

/-- Behind a line end at the end of a text there is one more line, which is empty. -/
theorem exists_lines_of_getLast (hc : c = '\n' ∨ c = '\r') (h : s.getLast? = some c) :
    ∃ first ls, lines s = first :: (ls ++ [[]]) := by
  have hend (s : Text) (h : s = [] ∨ ∃ first ls, lines s = first :: (ls ++ [[]])) :
      ∃ first ls, [] :: lines s = first :: (ls ++ [[]]) := by
    rcases h with rfl | ⟨first, ls, hs⟩
    · exact ⟨[], [], rfl⟩
    · exact ⟨[], first :: ls, by rw [hs, List.cons_append]⟩
  have hlast (d : Char) {s : Text} (hs : s ≠ []) : (d :: s).getLast? = s.getLast? := by
    rw [List.getLast?_cons, List.getLast?_eq_some_getLast hs, Option.getD_some]
  fun_induction lines s with
  | case1 => cases h
  | case2 s ih =>
    refine hend s ((Decidable.em (s = [])).imp_right fun hs => ih ?_)
    rw [← h, hlast _ (by simp), hlast _ hs]
  | case3 d s _ _ ih =>
    exact hend s ((Decidable.em (s = [])).imp_right fun hs => ih (hlast d hs ▸ h))
  | case4 d s _ _ hs => exact absurd hs (lines_ne_nil s)
  | case5 d s _ hd first rest hs ih =>
    have hne : s ≠ [] := by
      rintro rfl
      obtain rfl : d = c := by simpa using h
      exact hd hc
    obtain ⟨first', ls, hs'⟩ := ih (hlast d hne ▸ h)
    obtain ⟨rfl, rfl⟩ := List.cons.inj (hs.symm.trans hs')
    exact ⟨d :: first, ls, rfl⟩

/-- Only line ends are lost. -/
theorem flatten_lines (s : Text) :
    (lines s).flatten = s.filter fun c => ¬(c = '\n' ∨ c = '\r') := by
  fun_induction lines s with
  | case1 => rfl
  | case2 s ih => simpa using ih
  | case3 c s _ hc ih =>
    rw [List.filter_cons_of_neg (by simp only [hc]; decide), ← ih, List.flatten_cons,
      List.nil_append]
  | case4 c s _ _ hs => exact absurd hs (lines_ne_nil s)
  | case5 c s _ hc first rest hs ih =>
    rw [hs] at ih
    rw [List.filter_cons_of_pos (by simpa using hc), ← ih]
    rfl

/-! ### A cursor over bytes -/

/-- The lines of `s` from the byte at `start` on behind those already found, where a cursor has come
to the byte at `i`. Each cut is asked for in turn; there is no answer if there is no such cut. -/
def linesFrom? (s : Text) (start i : Nat) (found : List Text) : Option (List Text) :=
  match h : (Bytes.ofText s)[i]? with
  | none => (dropBytes? start s).map fun line => found ++ [line]
  | some x =>
    have := (List.getElem?_eq_some_iff.1 h).1
    if x = 0x0a then
      match slice? start i s with
      | none => none
      | some line => linesFrom? s (i + 1) (i + 1) (found ++ [line])
    else if x = 0x0d then
      match slice? start i s with
      | none => none
      | some line =>
        if (Bytes.ofText s)[i + 1]? = some 0x0a then linesFrom? s (i + 2) (i + 2) (found ++ [line])
        else linesFrom? s (i + 1) (i + 1) (found ++ [line])
    else linesFrom? s start (i + 1) found
termination_by (Bytes.ofText s).length - i

/-- All lines, found by a cursor. -/
def linesAt? (s : Text) : Option (List Text) := linesFrom? s 0 0 []

variable {found : List Text}

theorem linesFrom?_of_none (h : (Bytes.ofText s)[i]? = none)
    (hcut : dropBytes? start s = some line) :
    linesFrom? s start i found = some (found ++ [line]) := by
  rw [linesFrom?]
  split
  · rw [hcut, Option.map_some]
  · rename_i h'
    rw [h] at h'
    cases h'

theorem linesFrom?_of_some (h : (Bytes.ofText s)[i]? = some x) :
    linesFrom? s start i found =
      if x = 0x0a then
        (slice? start i s).bind fun line => linesFrom? s (i + 1) (i + 1) (found ++ [line])
      else if x = 0x0d then
        (slice? start i s).bind fun line =>
          if (Bytes.ofText s)[i + 1]? = some 0x0a then
            linesFrom? s (i + 2) (i + 2) (found ++ [line])
          else linesFrom? s (i + 1) (i + 1) (found ++ [line])
      else linesFrom? s start (i + 1) found := by
  rw [linesFrom?]
  split
  · rename_i h'
    rw [h] at h'
    cases h'
  · rename_i y h'
    obtain rfl : x = y := Option.some.inj (h.symm.trans h')
    cases slice? start i s <;> rfl

theorem linesFrom?_of_lf (h : (Bytes.ofText s)[i]? = some 0x0a)
    (hcut : slice? start i s = some line) :
    linesFrom? s start i found = linesFrom? s (i + 1) (i + 1) (found ++ [line]) := by
  rw [linesFrom?_of_some h, if_pos rfl, hcut, Option.bind_some]

theorem linesFrom?_of_cr (h : (Bytes.ofText s)[i]? = some 0x0d)
    (hcut : slice? start i s = some line) :
    linesFrom? s start i found =
      if (Bytes.ofText s)[i + 1]? = some 0x0a then linesFrom? s (i + 2) (i + 2) (found ++ [line])
      else linesFrom? s (i + 1) (i + 1) (found ++ [line]) := by
  rw [linesFrom?_of_some h, if_neg (by decide), if_pos rfl, hcut, Option.bind_some]

theorem linesFrom?_of_ne (h : (Bytes.ofText s)[i]? = some x) (hn : x ≠ 0x0a) (hr : x ≠ 0x0d) :
    linesFrom? s start i found = linesFrom? s start (i + 1) found := by
  rw [linesFrom?_of_some h, if_neg hn, if_neg hr]

/-- The cursor moves on over every byte of a character that ends no line. -/
theorem linesFrom?_cons (hc : ¬(c = '\n' ∨ c = '\r')) (done s : Text) (start : Nat)
    (found : List Text) :
    linesFrom? (done ++ c :: s) start done.byteCount found =
      linesFrom? (done ++ c :: s) start (done ++ [c]).byteCount found := by
  have hmove : ∀ k ≤ c.utf8Size, linesFrom? (done ++ c :: s) start done.byteCount found =
      linesFrom? (done ++ c :: s) start (done.byteCount + k) found := by
    intro k hk
    induction k with
    | zero => rfl
    | succ k ih =>
      have hlt : k < (String.utf8EncodeChar c).length := by
        rw [String.length_utf8EncodeChar]
        omega
      have hbyte : (Bytes.ofText (done ++ c :: s))[done.byteCount + k]? =
          some (String.utf8EncodeChar c)[k] := by
        rw [Bytes.getElem?_ofText_append, Bytes.ofText_cons, List.getElem?_append_left hlt,
          List.getElem?_eq_getElem hlt]
      have hmem := List.getElem_mem hlt
      rw [ih (by omega), linesFrom?_of_ne hbyte, Nat.add_assoc]
      · intro heq
        rw [heq] at hmem
        exact hc (.inl (Char.toNat_inj.1 (Bytes.toNat_of_mem_utf8EncodeChar hmem (by decide))))
      · intro heq
        rw [heq] at hmem
        exact hc (.inr (Char.toNat_inj.1 (Bytes.toNat_of_mem_utf8EncodeChar hmem (by decide))))
  rw [hmove _ (Nat.le_refl _), byteCount_append, byteCount_cons, byteCount_nil, Nat.add_zero]

/-- What the cursor finds from behind the part `line` of a line: the rest of it and what follows. -/
def FindsRest (s : Text) : Prop :=
  ∀ (done : Text) {line : Text} (found : List Text), IsLine line →
    linesFrom? (done ++ (line ++ s)) done.byteCount (done ++ line).byteCount found =
      some (found ++ lines (line ++ s))

/-- Behind a line end the cursor has found the line in front of it, and goes on. -/
theorem FindsRest.behind (h : FindsRest s) (hmark : lines (mark ++ s) = [] :: lines s)
    (done : Text) (found : List Text) (hline : IsLine line) :
    linesFrom? (done ++ (line ++ (mark ++ s))) (done ++ line ++ mark).byteCount
      (done ++ line ++ mark).byteCount (found ++ [line]) =
      some (found ++ lines (line ++ (mark ++ s))) := by
  have hnext := h (done ++ line ++ mark) (found ++ [line]) isLine_nil
  rw [lines_append hline hmark, List.append_nil]
  simpa using hnext

theorem findsRest (s : Text) : FindsRest s := by
  have hlf (done line s : Text) : (Bytes.ofText (done ++ (line ++ s)))[(done ++ line).byteCount]? =
      some 0x0a ↔ s.head? = some '\n' := by
    rw [← List.append_assoc]
    exact @Bytes.getElem?_ofText_iff '\n' (by decide) (done ++ line) s
  have hcr (done line s : Text) : (Bytes.ofText (done ++ (line ++ s)))[(done ++ line).byteCount]? =
      some 0x0d ↔ s.head? = some '\r' := by
    rw [← List.append_assoc]
    exact @Bytes.getElem?_ofText_iff '\r' (by decide) (done ++ line) s
  -- the byte behind a CR tells whether it is a pair
  have hbehind (done line s : Text) :
      (Bytes.ofText (done ++ (line ++ '\r' :: s)))[(done ++ line).byteCount + 1]? = some 0x0a ↔
        s.head? = some '\n' := by
    have h := hlf done (line ++ ['\r']) s
    have hlen : (done ++ (line ++ ['\r'])).byteCount = (done ++ line).byteCount + 1 := by
      rw [← List.append_assoc]
      exact byteCount_append _ _
    rwa [hlen, List.append_assoc line, List.singleton_append] at h
  fun_induction lines s with
  | case1 =>
    intro done line found hline
    have hend : (Bytes.ofText (done ++ line))[(done ++ line).byteCount]? = none :=
      List.getElem?_eq_none (Nat.le_of_eq (Bytes.length_ofText _))
    rw [List.append_nil, linesFrom?_of_none hend (dropBytes?_append done line)]
    rw [← List.append_nil line, lines_append hline rfl, List.append_nil]
  | case2 s ih =>
    intro done line found hline
    have hr := (hcr done line ('\r' :: '\n' :: s)).2 rfl
    have hn := (hbehind done line ('\n' :: s)).2 rfl
    have hlen : (done ++ line ++ ['\r', '\n']).byteCount = (done ++ line).byteCount + 2 :=
      byteCount_append _ _
    rw [linesFrom?_of_cr hr (slice?_append done line _), if_pos hn, ← hlen]
    have hlines : lines (['\r', '\n'] ++ s) = [] :: lines s := by simp [lines]
    exact ih.behind hlines done found hline
  | case3 c s hpair hc ih =>
    intro done line found hline
    have hlines : lines ([c] ++ s) = [] :: lines s := by
      rw [List.singleton_append, lines, if_pos hc]
      exact hpair
    have hnext := ih.behind hlines done found hline
    have hcut := slice?_append done line (c :: s)
    rcases hc with rfl | rfl
    · have hlen : (done ++ line ++ ['\n']).byteCount = (done ++ line).byteCount + 1 :=
        byteCount_append _ _
      rw [linesFrom?_of_lf ((hlf done line ('\n' :: s)).2 rfl) hcut, ← hlen]
      exact hnext
    · have hlen : (done ++ line ++ ['\r']).byteCount = (done ++ line).byteCount + 1 :=
        byteCount_append _ _
      have hn : ¬s.head? = some '\n' := fun h => by
        obtain ⟨s, rfl⟩ := List.head?_eq_some_iff.1 h
        exact hpair s rfl rfl
      rw [linesFrom?_of_cr ((hcr done line ('\r' :: s)).2 rfl) hcut,
        if_neg (mt (hbehind done line s).1 hn), ← hlen]
      exact hnext
  | case4 c s _ _ hs => exact absurd hs (lines_ne_nil s)
  | case5 c s _ hc first rest hs ih =>
    intro done line found hline
    have hline' : IsLine (line ++ [c]) :=
      isLine_append.2 ⟨hline, by simpa [IsLine, eq_comm] using hc⟩
    have hnext := ih done found hline'
    rw [List.append_assoc, List.singleton_append] at hnext
    rw [← hnext, ← List.append_assoc, linesFrom?_cons hc, List.append_assoc, List.append_assoc]

/-- No cut of the cursor fails, and the lines that it finds are the lines of the text. -/
theorem linesAt?_eq (s : Text) : linesAt? s = some (lines s) :=
  findsRest s [] [] isLine_nil

/-! ### The middle that blank lines leave -/

/-- What is left between blank lines, with none of them at its own ends. -/
structure IsMiddle (ls mid : List Text) : Prop where
  between : ∃ before after, ls = before ++ (mid ++ after) ∧ (∀ l ∈ before, isBlank l = true) ∧
    ∀ l ∈ after, isBlank l = true
  first : ∀ l, mid.head? = some l → isBlank l = false
  last : ∀ l, mid.getLast? = some l → isBlank l = false

theorem isMiddle_trimBlank (ls : List Text) : IsMiddle ls (trimBlank ls) where
  between := by
    refine ⟨ls.takeWhile isBlank, ((ls.dropWhile isBlank).reverse.takeWhile isBlank).reverse, ?_,
      fun l hl => List.all_eq_true.1 List.all_takeWhile l hl,
      fun l hl => List.all_eq_true.1 List.all_takeWhile l (List.mem_reverse.1 hl)⟩
    rw [trimBlank, ← List.reverse_append, List.takeWhile_append_dropWhile, List.reverse_reverse,
      List.takeWhile_append_dropWhile]
  first l hl := by
    -- nothing is taken from the front of what is left behind the first blank lines
    obtain ⟨after, hafter⟩ := List.rdropWhile_prefix isBlank (ls.dropWhile isBlank)
    have h := List.head?_dropWhile_not isBlank ls
    rw [trimBlank, ← List.rdropWhile] at hl
    rw [← hafter, List.head?_append, hl] at h
    exact h
  last l hl := by
    rw [trimBlank, List.getLast?_reverse] at hl
    have h := List.head?_dropWhile_not isBlank (ls.dropWhile isBlank).reverse
    rw [hl] at h
    exact h

theorem dropWhile_isBlank_append {before : List Text} (hbefore : ∀ l ∈ before, isBlank l = true)
    (hfirst : ∀ l, ls.head? = some l → isBlank l = false) :
    (before ++ ls).dropWhile isBlank = ls := by
  rw [List.dropWhile_append_of_pos hbefore]
  cases ls with
  | nil => rfl
  | cons l ls => exact List.dropWhile_cons_of_neg (by simp [hfirst l rfl])

theorem IsMiddle.eq_trimBlank (h : IsMiddle ls mid) : mid = trimBlank ls := by
  obtain ⟨before, after, rfl, hbefore, hafter⟩ := h.between
  have hafter' : ∀ l ∈ after.reverse, isBlank l = true := fun l hl =>
    hafter l (List.mem_reverse.1 hl)
  have hback : (mid ++ after).reverse.dropWhile isBlank = mid.reverse := by
    rw [List.reverse_append]
    exact dropWhile_isBlank_append hafter' fun l hl => h.last l (by rwa [List.head?_reverse] at hl)
  cases mid with
  | nil =>
    have hnone : (before ++ after).dropWhile isBlank = [] :=
      List.dropWhile_eq_nil_iff.2 fun l hl => (List.mem_append.1 hl).elim (hbefore l) (hafter l)
    rw [trimBlank, List.nil_append, hnone, List.reverse_nil, List.dropWhile_nil, List.reverse_nil]
  | cons l more =>
    have hfront : (before ++ (l :: more ++ after)).dropWhile isBlank = l :: more ++ after :=
      dropWhile_isBlank_append hbefore fun l hl => h.first l hl
    rw [trimBlank, hfront, hback, List.reverse_reverse]

theorem isMiddle_iff : IsMiddle ls mid ↔ mid = trimBlank ls :=
  ⟨IsMiddle.eq_trimBlank, fun h => h ▸ isMiddle_trimBlank ls⟩

/-- The index of the first line that is not blank. -/
def firstFilled? (ls : List Text) : Option Nat := ls.findIdx? fun l => !isBlank l

/-- The index of the last line that is not blank, searched from behind. -/
def lastFilled? (ls : List Text) : Option Nat :=
  (firstFilled? ls.reverse).map fun k => ls.length - (k + 1)

/-- The lines from the first to the last that is not blank, if these do not cross. -/
def trimAt? (ls : List Text) : Option (List Text) :=
  let start := (firstFilled? ls).getD ls.length
  let stop := ((lastFilled? ls).map (· + 1)).getD start
  if start ≤ stop ∧ stop ≤ ls.length then some ((ls.take stop).drop start) else none

theorem firstFilled?_of_blank (h : ∀ l ∈ ls, isBlank l = true) : firstFilled? ls = none :=
  List.findIdx?_eq_none_iff.2 fun l hl => by rw [h l hl, Bool.not_true]

theorem firstFilled?_append {before : List Text} (h : ∀ l ∈ before, isBlank l = true)
    (hline : isBlank line = false) (ls : List Text) :
    firstFilled? (before ++ line :: ls) = some before.length := by
  have hnone := firstFilled?_of_blank h
  rw [firstFilled?] at hnone ⊢
  simp [List.findIdx?_append, hnone, List.findIdx?_cons, hline]

theorem lastFilled?_append {after : List Text} (h : ∀ l ∈ after, isBlank l = true)
    (hline : isBlank line = false) (ls : List Text) :
    lastFilled? (ls ++ line :: after) = some ls.length := by
  have hfirst := firstFilled?_append (fun l hl => h l (List.mem_reverse.1 hl)) hline ls.reverse
  have hreverse : (ls ++ line :: after).reverse = after.reverse ++ line :: ls.reverse := by simp
  rw [lastFilled?, hreverse, hfirst, Option.map_some]
  simp

/-- The two searches do not cross. -/
theorem trimAt?_eq (ls : List Text) : trimAt? ls = some (trimBlank ls) := by
  have h := isMiddle_trimBlank ls
  obtain ⟨before, after, hls, hbefore, hafter⟩ := h.between
  generalize trimBlank ls = mid at h hls
  subst hls
  cases mid with
  | nil =>
    have hblank : ∀ l ∈ before ++ after, isBlank l = true := fun l hl =>
      (List.mem_append.1 hl).elim (hbefore l) (hafter l)
    have hstart := firstFilled?_of_blank hblank
    have hstop : lastFilled? (before ++ after) = none := by
      rw [lastFilled?, firstFilled?_of_blank fun l hl => hblank l (List.mem_reverse.1 hl)]
      rfl
    simp [trimAt?, hstart, hstop]
  | cons l more =>
    obtain ⟨most, last, hmid⟩ : ∃ most last, l :: more = most ++ [last] :=
      (List.eq_nil_or_concat' _).resolve_left (List.cons_ne_nil l more)
    have hstart := firstFilled?_append hbefore (h.first l rfl) (more ++ after)
    have hstop := lastFilled?_append hafter (h.last last (by rw [hmid]; simp)) (before ++ most)
    have hls : before ++ most ++ last :: after = before ++ (l :: more ++ after) := by simp [hmid]
    have hlen : (before ++ most).length + 1 = (before ++ l :: more).length := by
      simp [hmid, Nat.add_assoc]
    rw [hls] at hstop
    have hcut : ((before ++ (l :: more ++ after)).take (before ++ l :: more).length).drop
        before.length = l :: more := by
      rw [← List.append_assoc, List.take_left, List.drop_left]
    rw [trimAt?, List.cons_append, hstart, ← List.cons_append, hstop]
    simp only [Option.getD_some, Option.map_some, hlen]
    rw [if_pos (by simp), hcut]

/-! ### Both -/

theorem lines_and_trimBlank :
    (∀ s, lines s = (replace ['\r'] ['\n'] (replace ['\r', '\n'] ['\n'] s)).splitOn '\n' ∧
      linesAt? s = some (lines s) ∧
      (∀ line ∈ lines s, '\n' ∉ line ∧ '\r' ∉ line) ∧
      (lines s).flatten = (s.filter fun c => ¬(c = '\n' ∨ c = '\r')) ∧
      ∀ c, (c = '\n' ∨ c = '\r') → s.getLast? = some c →
        ∃ first ls, lines s = first :: (ls ++ [[]])) ∧
      ∀ ls, trimAt? ls = some (trimBlank ls) ∧ ∀ mid, IsMiddle ls mid ↔ mid = trimBlank ls := by
  refine ⟨fun s => ⟨lines_eq_splitOn s, linesAt?_eq s, fun _ => not_mem_of_mem_lines,
    flatten_lines s, fun _ => exists_lines_of_getLast⟩, fun ls => ⟨trimAt?_eq ls, fun _ => ?_⟩⟩
  exact isMiddle_iff

theorem lines_and_trimBlank_mixed :
    (['x', '\r', '\n', '\r', 'y', '\n'].getLast? = some '\n' ∧
      ∃ first ls, lines ['x', '\r', '\n', '\r', 'y', '\n'] = first :: (ls ++ [[]])) ∧
      linesAt? ['x', '\r', '\n', '\r', 'y', '\n'] = some [['x'], [], ['y'], []] ∧
      trimAt? [[], ['x'], [], ['y'], ['\t']] = some [['x'], [], ['y']] ∧
      trimAt? [[], [' ']] = some [] := by
  obtain ⟨hlines, htrim⟩ := lines_and_trimBlank
  obtain ⟨-, hat, -, -, hlast⟩ := hlines ['x', '\r', '\n', '\r', 'y', '\n']
  refine ⟨⟨rfl, hlast '\n' (.inl rfl) rfl⟩, hat.trans ?_, (htrim _).1.trans ?_,
    (htrim _).1.trans ?_⟩
  · simp [lines]
  · rfl
  · rfl

end ModulePack.Text
