import ModulePack.Bytes

/-!
# Cuts at bytes

A text can be cut behind as many bytes of its UTF-8 as some of its characters take, and nowhere
else: `dropBytes?`, `takeBytes?` and `slice?` have no answer inside a character or behind the end.
Where a cut is possible can be told from one byte (`isBoundary_iff`).
-/

namespace ModulePack.Text

variable {s t : Text} {n : Nat}

/-- What follows the first `n` bytes, if a character ends there. -/
def dropBytes? : (n : Nat) → Text → Option Text
  | 0, s => some s
  | _ + 1, [] => none
  | n + 1, c :: s => if c.utf8Size ≤ n + 1 then dropBytes? (n + 1 - c.utf8Size) s else none

/-- The first `n` bytes, if a character ends there. -/
def takeBytes? : (n : Nat) → Text → Option Text
  | 0, _ => some []
  | _ + 1, [] => none
  | n + 1, c :: s =>
    if c.utf8Size ≤ n + 1 then (takeBytes? (n + 1 - c.utf8Size) s).map (c :: ·) else none

/-- The bytes from `start` to `stop`, if characters end at both. -/
def slice? (start stop : Nat) (s : Text) : Option Text :=
  if start ≤ stop then dropBytes? start s >>= takeBytes? (stop - start) else none

theorem dropBytes?_cons (c : Char) (n : Nat) (s : Text) :
    dropBytes? (c.utf8Size + n) (c :: s) = dropBytes? n s := by
  have hpos := c.utf8Size_pos
  obtain ⟨k, hk⟩ : ∃ k, c.utf8Size + n = k + 1 := ⟨c.utf8Size + n - 1, by omega⟩
  rw [hk, dropBytes?, if_pos (by omega), show k + 1 - c.utf8Size = n by omega]

theorem takeBytes?_cons (c : Char) (n : Nat) (s : Text) :
    takeBytes? (c.utf8Size + n) (c :: s) = (takeBytes? n s).map (c :: ·) := by
  have hpos := c.utf8Size_pos
  obtain ⟨k, hk⟩ : ∃ k, c.utf8Size + n = k + 1 := ⟨c.utf8Size + n - 1, by omega⟩
  rw [hk, takeBytes?, if_pos (by omega), show k + 1 - c.utf8Size = n by omega]

@[simp] theorem dropBytes?_append (s t : Text) : dropBytes? s.byteCount (s ++ t) = some t := by
  induction s with
  | nil => simp [dropBytes?]
  | cons c s ih => rw [byteCount_cons, List.cons_append, dropBytes?_cons, ih]

@[simp] theorem takeBytes?_append (s t : Text) : takeBytes? s.byteCount (s ++ t) = some s := by
  induction s with
  | nil => simp [takeBytes?]
  | cons c s ih => rw [byteCount_cons, List.cons_append, takeBytes?_cons, ih, Option.map_some]

theorem slice?_append (s t rest : Text) :
    slice? s.byteCount (s ++ t).byteCount (s ++ (t ++ rest)) = some t := by
  have hlen : (s ++ t).byteCount - s.byteCount = t.byteCount := by
    rw [byteCount_append]
    omega
  rw [slice?, if_pos (by rw [byteCount_append]; omega), dropBytes?_append, hlen]
  exact takeBytes?_append t rest

theorem le_byteCount_of_dropBytes (h : dropBytes? n s = some t) : n ≤ s.byteCount := by
  fun_induction dropBytes? n s with
  | case1 => exact Nat.zero_le _
  | case2 => cases h
  | case3 n c s hc ih =>
    have := ih h
    rw [byteCount_cons]
    omega
  | case4 => cases h

theorem dropBytes?_eq_some_iff :
    dropBytes? n s = some t ↔ ∃ before, s = before ++ t ∧ before.byteCount = n := by
  constructor
  · intro h
    fun_induction dropBytes? n s with
    | case1 s => exact ⟨[], Option.some.inj h, rfl⟩
    | case2 => cases h
    | case3 n c s hc ih =>
      obtain ⟨before, rfl, hbefore⟩ := ih h
      exact ⟨c :: before, rfl, by rw [byteCount_cons, hbefore]; omega⟩
    | case4 => cases h
  · rintro ⟨before, rfl, rfl⟩
    exact dropBytes?_append before t

/-- Whether a character begins behind the first `n` bytes, or the text ends there. -/
def isBoundary (n : Nat) (s : Text) : Bool :=
  match (Bytes.ofText s)[n]? with
  | some x => !Bytes.Continues x
  | none => n == s.byteCount

theorem isBoundary_cons_add (c : Char) (n : Nat) (s : Text) :
    isBoundary (c.utf8Size + n) (c :: s) = isBoundary n s := by
  have hend : (c.utf8Size + n == c.utf8Size + s.byteCount) = (n == s.byteCount) := by
    rw [Bool.eq_iff_iff, beq_iff_eq, beq_iff_eq, Nat.add_left_cancel_iff]
  rw [isBoundary, isBoundary, Bytes.ofText_cons, List.getElem?_append_right (by simp),
    String.length_utf8EncodeChar, Nat.add_sub_cancel_left, byteCount_cons, hend]

/-- Of the bytes of a character, only the first does not go on with it. -/
theorem isBoundary_cons_of_lt {c : Char} (h : n < c.utf8Size) (s : Text) :
    isBoundary n (c :: s) = decide (n = 0) := by
  have hlen : (String.utf8EncodeChar c).length = c.utf8Size := String.length_utf8EncodeChar c
  rw [isBoundary, Bytes.ofText_cons, List.getElem?_append_left (by omega)]
  rcases Bytes.utf8EncodeChar_cases c with ⟨hc, heq⟩ | ⟨-, first, rest, heq, hfirst, hrest⟩
  · obtain rfl : n = 0 := by
      rw [heq, List.length_singleton] at hlen
      omega
    have hnot : ¬Bytes.Continues (UInt8.ofNat c.toNat) := by
      rw [Bytes.Continues, UInt8.toNat_ofNat']
      omega
    simp [heq, hnot]
  · rw [heq] at hlen ⊢
    cases n with
    | zero =>
      have hnot : ¬Bytes.Continues first := by
        rw [Bytes.Continues]
        omega
      simp [hnot]
    | succ n =>
      have hn : n < rest.length := by
        rw [List.length_cons] at hlen
        omega
      have hgoes : Bytes.Continues rest[n] := hrest _ (List.getElem_mem hn)
      simp [hn, hgoes]

/-- A text can be cut exactly where a character begins or the text ends. -/
theorem isBoundary_iff : isBoundary n s = true ↔ ∃ t, dropBytes? n s = some t := by
  induction s generalizing n with
  | nil => cases n <;> simp [isBoundary, Bytes.ofText_eq_flatMap, dropBytes?]
  | cons c s ih =>
    rcases Nat.lt_or_ge n c.utf8Size with h | h
    · rw [isBoundary_cons_of_lt h]
      cases n with
      | zero => simp [dropBytes?]
      | succ n => simp [dropBytes?, Nat.not_le.2 h]
    · obtain ⟨k, rfl⟩ := Nat.exists_eq_add_of_le h
      rw [isBoundary_cons_add, dropBytes?_cons, ih]

end ModulePack.Text
