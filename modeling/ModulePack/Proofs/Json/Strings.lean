import ModulePack.Json.Token
import ModulePack.Json.Writer
import ModulePack.Proofs.Text.Lines

/-!
# JSON strings and JSON on one line

A string is read back as it was written, whatever stands behind it (`stringBody?_flatMap`). No value
is written with a control character (`noControl_compact`), so that its compact text is one line.
-/

namespace ModulePack

namespace Text

variable {s t : Text} {c : Char}

/-- A text without the control characters below U+0020, among them the line ends. -/
def NoControl (s : Text) : Prop := ∀ c ∈ s, 0x20 ≤ c.toNat

instance (s : Text) : Decidable (NoControl s) :=
  List.decidableBAll (fun c : Char => 0x20 ≤ c.toNat) s

@[simp] theorem noControl_nil : NoControl [] := fun _ h => absurd h List.not_mem_nil

@[simp] theorem noControl_cons : NoControl (c :: s) ↔ 0x20 ≤ c.toNat ∧ NoControl s :=
  List.forall_mem_cons

@[simp] theorem noControl_append : NoControl (s ++ t) ↔ NoControl s ∧ NoControl t :=
  List.forall_mem_append

theorem NoControl.isLine (h : NoControl s) : IsLine s :=
  ⟨fun hmem => absurd (h _ hmem) (by decide), fun hmem => absurd (h _ hmem) (by decide)⟩

end Text

namespace Json

open Text

variable {s rest : Text} {c : Char}

/-! ### Strings read back -/

theorem stringBody?_escape (h : escape? s = some (c, rest)) :
    stringBody? ('\\' :: s) = (stringBody? rest).map fun (body, rest) => (c :: body, rest) := by
  rw [stringBody?]
  split
  · rename_i hnone
    rw [h] at hnone
    cases hnone
  · rename_i hsome
    rw [h] at hsome
    cases hsome
    rfl

theorem escape?_unicode {c₁ c₂ c₃ c₄ : Char} {n : Nat} (h : hex4? c₁ c₂ c₃ c₄ = some n)
    (hn : n < 0xd800) (s : Text) :
    escape? ('u' :: c₁ :: c₂ :: c₃ :: c₄ :: s) = some (Char.ofNat n, s) := by
  unfold escape?
  simp only [h, bind, Option.bind]
  rw [if_pos (.inl hn)]

theorem hex4?_digitChar : ∀ n < 0x20,
    hex4? '0' '0' (Nat.digitChar (n / 16)) (Nat.digitChar (n % 16)) = some n := by
  decide

theorem stringBody?_escapeChar (c : Char) (s : Text) :
    stringBody? (escapeChar c ++ s) =
      (stringBody? s).map fun (body, rest) => (c :: body, rest) := by
  unfold escapeChar
  split
  iterate 7 exact stringBody?_escape rfl
  rename_i hquote hslash _ _ _ _ _
  split
  · rename_i hcontrol
    have hescape := escape?_unicode (hex4?_digitChar _ hcontrol) (by omega) s
    rw [Char.ofNat_toNat] at hescape
    exact stringBody?_escape hescape
  · rename_i hcontrol
    rw [List.singleton_append, stringBody?, if_neg hcontrol]
    · exact hquote
    · exact hslash

/-- What is written between quotes is read back up to the closing one. -/
theorem stringBody?_flatMap (s rest : Text) :
    stringBody? (s.flatMap escapeChar ++ '"' :: rest) = some (s, rest) := by
  induction s with
  | nil => rw [List.flatMap_nil, List.nil_append, stringBody?]
  | cons c s ih =>
    rw [List.flatMap_cons, List.append_assoc, stringBody?_escapeChar, ih]
    rfl

/-! ### Strings on one line -/

theorem noControl_escapeChar (c : Char) : NoControl (escapeChar c) := by
  unfold escapeChar
  split
  iterate 7 decide
  split
  · rename_i hcontrol
    have : ∀ n < 0x20, NoControl ['\\', 'u', '0', '0', Nat.digitChar (n / 16),
        Nat.digitChar (n % 16)] := by decide
    exact this _ hcontrol
  · rename_i hcontrol
    simpa using hcontrol

theorem noControl_stringText (s : Text) : NoControl (stringText s) := by
  have hbody : NoControl (s.flatMap escapeChar) := by
    intro c hc
    obtain ⟨d, -, hd⟩ := List.mem_flatMap.1 hc
    exact noControl_escapeChar d c hd
  simp [stringText, hbody]

/-! ### Numbers -/

/-- The characters that numbers are written with. -/
def isNumeral (c : Char) : Bool := c.isDigit || c == '-' || c == '+' || c == '.' || c == 'e'

theorem all_isNumeral_ofNat (n : Nat) : (ofNat n).all isNumeral = true := by
  refine List.all_eq_true.2 fun c hc => ?_
  have hdigit : c.isDigit = true := Nat.isDigit_of_mem_toDigits (by omega) (by omega) hc
  simp [isNumeral, hdigit]

theorem all_isNumeral_decimalText (x : Binary64.Decimal) :
    (decimalText x).all isNumeral = true := by
  have hsubset {s t : Text} (h : s.all isNumeral = true) (hts : t ⊆ s) : t.all isNumeral = true :=
    List.all_eq_true.2 fun c hc => List.all_eq_true.1 h c (hts hc)
  have hdigits : ((ofNat x.digits).reverse.dropWhile (· == '0')).reverse.all isNumeral = true :=
    hsubset (all_isNumeral_ofNat x.digits) fun c hc =>
      List.mem_reverse.1 ((List.dropWhile_sublist _).subset (List.mem_reverse.1 hc))
  have hzeros (n : Nat) : (List.replicate n '0').all isNumeral = true := by
    refine List.all_eq_true.2 fun c hc => ?_
    rw [(List.mem_replicate.1 hc).2]
    decide
  unfold decimalText
  dsimp only
  generalize ((ofNat x.digits).reverse.dropWhile (· == '0')).reverse = digits at hdigits
  have htake (n : Nat) : (digits.take n).all isNumeral = true :=
    hsubset hdigits (List.take_subset n digits)
  have hdrop (n : Nat) : (digits.drop n).all isNumeral = true :=
    hsubset hdigits (List.drop_subset n digits)
  split
  · split
    · simp only [List.all_append, hzeros, hdigits]
      decide
    · split <;> simp only [List.all_append, List.all_cons, htake, hzeros, hdrop] <;> decide
  · split <;> split <;>
      simp only [List.all_append, List.all_cons, htake, hdrop, all_isNumeral_ofNat] <;> decide

theorem all_isNumeral_number (n : Number) : n.text.all isNumeral = true := by
  cases n with
  | natural n => exact all_isNumeral_ofNat n
  | negative n => simp only [Number.text, List.all_cons, all_isNumeral_ofNat]; decide
  | real minus x =>
    rw [Number.text, List.all_append, Bool.and_eq_true]
    constructor
    · cases minus <;> decide
    · split
      · decide
      · exact all_isNumeral_decimalText _

theorem noControl_number (n : Number) : NoControl n.text := by
  intro c hc
  have h := List.all_eq_true.1 (all_isNumeral_number n) c hc
  simp only [isNumeral, Bool.or_eq_true, beq_iff_eq] at h
  rcases h with (((hdigit | rfl) | rfl) | rfl) | rfl
  · simp only [Char.isDigit, Bool.and_eq_true, decide_eq_true_eq] at hdigit
    have : (48 : Nat) ≤ c.toNat := hdigit.1
    omega
  all_goals decide

/-! ### Values on one line -/

mutual

theorem noControl_write (level : Nat) : ∀ v : Json, NoControl (write .compact level v)
  | .null => by rw [write]; decide
  | .bool true => by rw [write]; decide
  | .bool false => by rw [write]; decide
  | .number n => by rw [write]; exact noControl_number n
  | .string s => by rw [write]; exact noControl_stringText s
  | .array [] => by rw [write]; decide
  | .array (v :: items) => by
    have := noControl_write (level + 1) v
    have := noControl_writeItems level items
    simp_all [write, Layout.line]
  | .object [] => by rw [write]; decide
  | .object ((key, v) :: fields) => by
    have := noControl_stringText key
    have := noControl_write (level + 1) v
    have := noControl_writeFields level fields
    simp_all [write, Layout.line, Layout.colon]

theorem noControl_writeItems (level : Nat) :
    ∀ items : List Json, NoControl (writeItems .compact level items)
  | [] => by simp [writeItems, Layout.line]
  | v :: items => by
    have := noControl_write (level + 1) v
    have := noControl_writeItems level items
    simp_all [writeItems, Layout.line]

theorem noControl_writeFields (level : Nat) :
    ∀ fields : Fields, NoControl (writeFields .compact level fields)
  | [] => by simp [writeFields, Layout.line]
  | (key, v) :: fields => by
    have := noControl_stringText key
    have := noControl_write (level + 1) v
    have := noControl_writeFields level fields
    simp_all [writeFields, Layout.line, Layout.colon]

end

theorem noControl_compact (v : Json) : NoControl v.compact := noControl_write 0 v

end Json

end ModulePack
