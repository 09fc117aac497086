import ModulePack.Text.Basic

/-!
# Bytes

File contents are lists of bytes. `Bytes.ofText` writes UTF-8 and `Bytes.toText?` reads it,
refusing what is not well formed; `toText?_ofText` says that what was written is read back, and
`utf8EncodeChar_cases` which bytes begin a character. `ofHex?_hex` reads back hexadecimal digits.
-/

namespace ModulePack

abbrev Bytes := List UInt8

namespace Bytes

def ofText (s : Text) : Bytes := (String.ofList s).toUTF8.data.toList

/-- The text that well-formed UTF-8 encodes. -/
def toText? (b : Bytes) : Option Text := (String.fromUTF8? ⟨b.toArray⟩).map String.toList

/-- Two lower case hexadecimal digits a byte. -/
def hex (b : Bytes) : Text :=
  b.flatMap fun x => [Nat.digitChar (x.toNat / 16), Nat.digitChar (x.toNat % 16)]

def digit? (c : Char) : Option Nat :=
  if '0' ≤ c ∧ c ≤ '9' then some (c.toNat - '0'.toNat)
  else if 'a' ≤ c ∧ c ≤ 'f' then some (c.toNat - 'a'.toNat + 10)
  else if 'A' ≤ c ∧ c ≤ 'F' then some (c.toNat - 'A'.toNat + 10)
  else none

/-- A digit that `hex` writes. -/
def IsHexDigit (c : Char) : Prop := '0' ≤ c ∧ c ≤ '9' ∨ 'a' ≤ c ∧ c ≤ 'f'

instance (c : Char) : Decidable (IsHexDigit c) := inferInstanceAs (Decidable (_ ∨ _))

/-- The bytes that pairs of hexadecimal digits give. -/
def ofHex? : Text → Option Bytes
  | [] => some []
  | [_] => none
  | a :: b :: rest => do
    let x := (← digit? a) * 16 + (← digit? b)
    return UInt8.ofNat x :: (← ofHex? rest)

@[simp] theorem toText?_ofText (s : Text) : toText? (ofText s) = some s := by
  have h : String.fromUTF8? (String.ofList s).toUTF8 = some (String.ofList s) := by
    have hvalid : (String.ofList s).toUTF8.IsValidUTF8 := (String.ofList s).isValidUTF8
    rw [String.fromUTF8?, dif_pos hvalid]
    rfl
  show (String.fromUTF8? (String.ofList s).toUTF8).map String.toList = some s
  rw [h, Option.map_some, String.toList_ofList]

theorem ofText_injective {s t : Text} (h : ofText s = ofText t) : s = t := by
  simpa using congrArg toText? h

theorem ofText_eq_flatMap (s : Text) : ofText s = s.flatMap String.utf8EncodeChar := by
  show (List.utf8Encode s).data.toList = _
  simp [List.utf8Encode]

theorem ofText_cons (c : Char) (s : Text) :
    ofText (c :: s) = String.utf8EncodeChar c ++ ofText s := by
  rw [ofText_eq_flatMap, ofText_eq_flatMap, List.flatMap_cons]

theorem ofText_append (s t : Text) : ofText (s ++ t) = ofText s ++ ofText t := by
  rw [ofText_eq_flatMap, ofText_eq_flatMap, ofText_eq_flatMap, List.flatMap_append]

theorem length_ofText (s : Text) : (ofText s).length = s.byteCount := by
  rw [ofText_eq_flatMap]
  induction s with
  | nil => rfl
  | cons c s ih =>
    rw [List.flatMap_cons, List.length_append, ih, Text.byteCount_cons,
      String.length_utf8EncodeChar]

theorem getElem?_ofText_append (s t : Text) (k : Nat) :
    (ofText (s ++ t))[s.byteCount + k]? = (ofText t)[k]? := by
  rw [ofText_append, List.getElem?_append_right (by rw [length_ofText]; omega), length_ofText,
    Nat.add_sub_cancel_left]

/-- Whether a byte goes on with a character that has begun. -/
def Continues (x : UInt8) : Prop := 0x80 ≤ x.toNat ∧ x.toNat < 0xc0

instance (x : UInt8) : Decidable (Continues x) := inferInstanceAs (Decidable (_ ∧ _))

theorem continues_ofNat (n : Nat) : Continues (UInt8.ofNat (n % 64 + 128)) := by
  rw [Continues, UInt8.toNat_ofNat']
  omega

theorem le_toNat_ofNat {n : Nat} (h : 0xc0 ≤ n) (h' : n < 0x100) :
    0xc0 ≤ (UInt8.ofNat n).toNat := by
  rw [UInt8.toNat_ofNat']
  omega

/-- A character is one byte below `0x80`, or one from `0xc0` on and others that go on with it. -/
theorem utf8EncodeChar_cases (c : Char) :
    c.toNat < 0x80 ∧ String.utf8EncodeChar c = [UInt8.ofNat c.toNat] ∨
      0x80 ≤ c.toNat ∧ ∃ first rest, String.utf8EncodeChar c = first :: rest ∧ 0xc0 ≤ first.toNat ∧
        ∀ x ∈ rest, Continues x := by
  have hrest (ns : List Nat) :
      ∀ x ∈ ns.map (fun n => UInt8.ofNat (n % 64 + 128)), Continues x := by
    intro x hx
    obtain ⟨n, -, rfl⟩ := List.mem_map.1 hx
    exact continues_ofNat n
  unfold String.utf8EncodeChar
  dsimp only
  split
  · exact .inl ⟨Nat.lt_succ_of_le ‹_›, rfl⟩
  refine .inr ⟨Nat.lt_of_not_le ‹_›, ?_⟩
  split
  · exact ⟨_, _, rfl, le_toNat_ofNat (by omega) (by omega), hrest [_]⟩
  split
  · exact ⟨_, _, rfl, le_toNat_ofNat (by omega) (by omega), hrest [_, _]⟩
  · exact ⟨_, _, rfl, le_toNat_ofNat (by omega) (by omega), hrest [_, _, _]⟩

/-- A byte below `0x80` stands for its own character only. -/
theorem toNat_of_mem_utf8EncodeChar {c : Char} {x : UInt8} (h : x ∈ String.utf8EncodeChar c)
    (hx : x.toNat < 0x80) : c.toNat = x.toNat := by
  rcases utf8EncodeChar_cases c with ⟨hc, heq⟩ | ⟨-, first, rest, heq, hfirst, hrest⟩
  · rw [heq, List.mem_singleton] at h
    rw [h, UInt8.toNat_ofNat', Nat.mod_eq_of_lt (by omega)]
  · rw [heq] at h
    rcases List.mem_cons.1 h with rfl | h
    · omega
    · have := (hrest x h).1
      omega

/-- An ASCII character can be told from its byte. -/
theorem getElem?_ofText_iff {c : Char} (hc : c.toNat < 0x80) (s t : Text) :
    (ofText (s ++ t))[s.byteCount]? = some (UInt8.ofNat c.toNat) ↔ t.head? = some c := by
  rw [← Nat.add_zero s.byteCount, getElem?_ofText_append]
  cases t with
  | nil => simp [ofText_eq_flatMap]
  | cons d t =>
    rw [ofText_cons, List.head?_cons, Option.some_inj]
    constructor
    · intro h
      have hpos : 0 < (String.utf8EncodeChar d).length := by
        rw [String.length_utf8EncodeChar]
        exact d.utf8Size_pos
      rw [List.getElem?_append_left hpos] at h
      have hbyte : (UInt8.ofNat c.toNat).toNat = c.toNat := by
        rw [UInt8.toNat_ofNat']
        omega
      have heq := toNat_of_mem_utf8EncodeChar (List.mem_of_getElem? h) (by omega)
      exact Char.toNat_inj.1 (heq.trans hbyte)
    · rintro rfl
      rcases utf8EncodeChar_cases d with ⟨-, heq⟩ | ⟨hd, -⟩
      · rw [heq]
        rfl
      · omega

theorem zero_mem_utf8EncodeChar {c : Char} (h : 0 ∈ String.utf8EncodeChar c) : c = '\x00' :=
  Char.toNat_inj.1 (toNat_of_mem_utf8EncodeChar h (by decide))

theorem zero_not_mem_ofText {s : Text} (h : '\x00' ∉ s) : 0 ∉ ofText s := by
  rw [ofText_eq_flatMap]
  intro hmem
  obtain ⟨c, hc, hzero⟩ := List.mem_flatMap.1 hmem
  exact h (zero_mem_utf8EncodeChar hzero ▸ hc)

@[simp] theorem length_hex (b : Bytes) : (hex b).length = 2 * b.length := by
  induction b with
  | nil => rfl
  | cons x b ih => simp only [hex, List.flatMap_cons, List.length_append] at ih ⊢; simp [ih]; omega

theorem isHexDigit_digitChar : ∀ n < 16, IsHexDigit (Nat.digitChar n) := by decide

theorem isHexDigit_of_mem_hex {c : Char} {b : Bytes} (h : c ∈ b.hex) : IsHexDigit c := by
  obtain ⟨x, -, hc⟩ := List.mem_flatMap.1 h
  have hx := x.toNat_lt
  rcases List.mem_cons.1 hc with rfl | hc
  · exact isHexDigit_digitChar _ (by omega)
  · rw [List.mem_singleton.1 hc]
    exact isHexDigit_digitChar _ (by omega)

theorem digit?_digitChar : ∀ n < 16, digit? (Nat.digitChar n) = some n := by decide

@[simp] theorem ofHex?_hex (b : Bytes) : ofHex? (hex b) = some b := by
  induction b with
  | nil => rfl
  | cons x b ih =>
    have hhigh : x.toNat / 16 < 16 := by
      have := x.toNat_lt
      omega
    have hbyte : UInt8.ofNat (x.toNat / 16 * 16 + x.toNat % 16) = x := by
      rw [Nat.div_add_mod', UInt8.ofNat_toNat]
    show ofHex? (_ :: _ :: hex b) = _
    rw [ofHex?, digit?_digitChar _ hhigh, digit?_digitChar _ (Nat.mod_lt _ (by decide)), ih]
    simp only [Option.bind_eq_bind, Option.bind_some, hbyte]
    rfl

theorem hex_injective {b b' : Bytes} (h : b.hex = b'.hex) : b = b' := by
  simpa using congrArg ofHex? h

end Bytes

end ModulePack
