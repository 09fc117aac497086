/-!
# Text

A text is the list of its characters. `after?` and `cut?` look for a mark at the start and anywhere;
`after?_eq_some_iff` and `cut?_eq_some` say that the pieces they find make up the text again.
-/

namespace ModulePack

/-- A text, as the list of its characters. -/
abbrev Text := List Char

namespace Text

/-- What follows `mark` in a text that starts with it. -/
def after? : (mark s : Text) → Option Text
  | [], s => some s
  | _ :: _, [] => none
  | m :: mark, c :: s => if m = c then after? mark s else none

/-- The pieces around the first occurrence of `mark`. -/
def cut? (mark : Text) : Text → Option (Text × Text)
  | [] => if mark = [] then some ([], []) else none
  | c :: s =>
    match after? mark (c :: s) with
    | some rest => some ([], rest)
    | none => (cut? mark s).map fun (before, after) => (c :: before, after)

def mentions (mark s : Text) : Bool := (cut? mark s).isSome

/-- Letters of the ASCII alphabet in lower case, all else as it is. -/
def asciiLower (s : Text) : Text := s.map Char.toLower

/-- The number of bytes that the text takes in UTF-8. -/
def byteCount (s : Text) : Nat := s.foldr (fun c count => c.utf8Size + count) 0

/-- The texts in order, with `separator` between neighbours. -/
def join (separator : Text) : List Text → Text
  | [] => []
  | [s] => s
  | s :: rest => s ++ separator ++ join separator rest

/-- Decimal digits, no sign, no leading zero. -/
def ofNat (n : Nat) : Text := Nat.toDigits 10 n

@[simp] theorem byteCount_nil : byteCount [] = 0 := rfl

@[simp] theorem byteCount_cons (c : Char) (s : Text) :
    byteCount (c :: s) = c.utf8Size + byteCount s := rfl

@[simp] theorem byteCount_append (s t : Text) : byteCount (s ++ t) = byteCount s + byteCount t := by
  induction s with
  | nil => simp
  | cons c s ih => simp [ih, Nat.add_assoc]

theorem after?_eq_some_iff {mark s rest : Text} : after? mark s = some rest ↔ s = mark ++ rest := by
  induction mark generalizing s with
  | nil => simp [after?]
  | cons m mark ih =>
    cases s with
    | nil => simp [after?]
    | cons c s => by_cases h : m = c <;> simp [after?, h, ih, eq_comm]

@[simp] theorem after?_append (mark rest : Text) : after? mark (mark ++ rest) = some rest :=
  after?_eq_some_iff.2 rfl

theorem cut?_eq_some {mark s before after : Text} (h : cut? mark s = some (before, after)) :
    s = before ++ mark ++ after := by
  induction s generalizing before with
  | nil =>
    simp only [cut?] at h
    split at h <;> simp_all
  | cons c s ih =>
    simp only [cut?] at h
    split at h
    · rename_i rest hrest
      obtain ⟨rfl, rfl⟩ : [] = before ∧ rest = after := by simpa using h
      simpa using after?_eq_some_iff.1 hrest
    · obtain ⟨⟨b, a⟩, hcut, heq⟩ := Option.map_eq_some_iff.1 h
      obtain ⟨rfl, rfl⟩ : c :: b = before ∧ a = after := by simpa using heq
      simp [ih hcut]

/-- There is one way only to cut a list at the first `c`. -/
theorem append_cons_inj {α : Type} {c : α} {s s' t t' : List α} (hs : c ∉ s) (hs' : c ∉ s')
    (h : s ++ c :: t = s' ++ c :: t') : s = s' ∧ t = t' := by
  induction s generalizing s' with
  | nil =>
    cases s' with
    | nil => exact ⟨rfl, (List.cons.inj h).2⟩
    | cons x s' => exact absurd (by simp [(List.cons.inj h).1]) hs'
  | cons x s ih =>
    cases s' with
    | nil => exact absurd (by simp [(List.cons.inj h).1]) hs
    | cons y s' =>
      obtain ⟨hxy, hrest⟩ := List.cons.inj h
      rw [List.mem_cons, not_or] at hs hs'
      obtain ⟨heq, ht⟩ := ih hs.2 hs'.2 hrest
      exact ⟨by rw [hxy, heq], ht⟩

/-- Texts in a row that show where they end can be told apart. -/
theorem flatMap_inj {α β : Type} {f : α → List β} {xs ys : List α} (hne : ∀ x, f x ≠ [])
    (hinj : ∀ x ∈ xs, ∀ y ∈ ys, ∀ t t', f x ++ t = f y ++ t' → x = y ∧ t = t')
    (h : xs.flatMap f = ys.flatMap f) : xs = ys := by
  induction xs generalizing ys with
  | nil =>
    cases ys with
    | nil => rfl
    | cons y ys => exact absurd (List.append_eq_nil_iff.1 h.symm).1 (hne y)
  | cons x xs ih =>
    cases ys with
    | nil => exact absurd (List.append_eq_nil_iff.1 h).1 (hne x)
    | cons y ys =>
      obtain ⟨hxy, hrest⟩ := hinj x (by simp) y (by simp) _ _ h
      have htail := ih (fun a ha b hb => hinj a (by simp [ha]) b (by simp [hb])) hrest
      rw [hxy, htail]

@[simp] theorem join_nil (separator : Text) : join separator [] = [] := rfl

@[simp] theorem join_singleton (separator s : Text) : join separator [s] = s := rfl

theorem join_cons {separator s : Text} {rest : List Text} (h : rest ≠ []) :
    join separator (s :: rest) = s ++ separator ++ join separator rest := by
  cases rest with
  | nil => exact absurd rfl h
  | cons => rfl

theorem mem_join {separator : Text} {xs : List Text} {c : Char} (h : c ∈ join separator xs) :
    c ∈ separator ∨ ∃ x ∈ xs, c ∈ x := by
  induction xs with
  | nil => cases h
  | cons x xs ih =>
    by_cases hxs : xs = []
    · rw [hxs, join_singleton] at h
      exact .inr ⟨x, by simp, h⟩
    · rw [join_cons hxs, List.mem_append, List.mem_append] at h
      rcases h with (h | h) | h
      · exact .inr ⟨x, by simp, h⟩
      · exact .inl h
      · exact (ih h).imp_right fun ⟨y, hy, hc⟩ => ⟨y, by simp [hy], hc⟩

end Text

end ModulePack
