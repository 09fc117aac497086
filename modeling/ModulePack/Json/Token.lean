import ModulePack.Bytes
import ModulePack.Json.Basic

/-!
# Tokens of JSON text

The text is cut into punctuation and scalar values, with white space between them left out. Cutting
a token off leaves a shorter text (`length_lt_of_nextToken`), so that `tokens?` ends.
-/

namespace ModulePack.Json

inductive Token where
  | arrayStart
  | arrayEnd
  | objectStart
  | objectEnd
  | comma
  | colon
  /-- A value that is no container; a key is such a string. -/
  | scalar (value : Json)

/-- White space between tokens. -/
def isBlank (c : Char) : Bool := c == ' ' || c == '\t' || c == '\r' || c == '\n'

/-- The number that four hexadecimal digits give. -/
def hex4? (a b c d : Char) : Option Nat := do
  let high := (← Bytes.digit? a) * 16 + (← Bytes.digit? b)
  let low := (← Bytes.digit? c) * 16 + (← Bytes.digit? d)
  return high * 256 + low

/-- The character of an escape, read from what follows its backslash, and the rest. A character
beyond U+FFFF takes two escapes, a high and then a low half; neither half may stand alone. -/
def escape? : Text → Option (Char × Text)
  | '"' :: s => some ('"', s)
  | '\\' :: s => some ('\\', s)
  | '/' :: s => some ('/', s)
  | 'b' :: s => some ('\x08', s)
  | 'f' :: s => some ('\x0c', s)
  | 'n' :: s => some ('\n', s)
  | 'r' :: s => some ('\r', s)
  | 't' :: s => some ('\t', s)
  | 'u' :: a :: b :: c :: d :: s => do
    let high ← hex4? a b c d
    if high < 0xd800 ∨ 0xdfff < high then some (Char.ofNat high, s)
    else if 0xdc00 ≤ high then none
    else
      match s with
      | '\\' :: 'u' :: a :: b :: c :: d :: s => do
        let low ← hex4? a b c d
        if 0xdc00 ≤ low ∧ low ≤ 0xdfff then
          some (Char.ofNat (0x10000 + (high - 0xd800) * 0x400 + (low - 0xdc00)), s)
        else none
      | _ => none
  | _ => none

theorem length_lt_of_escape {s rest : Text} {c : Char} (h : escape? s = some (c, rest)) :
    rest.length < s.length := by
  unfold escape? at h
  split at h
  case h_9 =>
    obtain ⟨high, -, h⟩ := Option.bind_eq_some_iff.1 h
    split at h
    · obtain ⟨-, rfl⟩ : _ ∧ _ = rest := by simpa using h
      simp
      omega
    · split at h
      · simp at h
      · split at h
        · obtain ⟨low, -, h⟩ := Option.bind_eq_some_iff.1 h
          split at h
          · obtain ⟨-, rfl⟩ : _ ∧ _ = rest := by simpa using h
            simp
            omega
          · simp at h
        · simp at h
  case h_10 => simp at h
  all_goals
    obtain ⟨-, rfl⟩ : _ ∧ _ = rest := by simpa using h
    simp

/-- The content of a string, read from behind its opening quote, and the text behind the closing
one. Controls below U+0020 have to be escaped. -/
def stringBody? (s : Text) : Option (Text × Text) :=
  match s with
  | [] => none
  | '"' :: s => some ([], s)
  | '\\' :: s =>
    match h : escape? s with
    | none => none
    | some (c, rest) =>
      have := length_lt_of_escape h
      (stringBody? rest).map fun (body, rest) => (c :: body, rest)
  | c :: s =>
    if c.toNat < 0x20 then none
    else (stringBody? s).map fun (body, rest) => (c :: body, rest)
termination_by s.length

theorem length_lt_of_stringBody {s body rest : Text} (h : stringBody? s = some (body, rest)) :
    rest.length < s.length := by
  fun_induction stringBody? s generalizing body with
  | case1 => simp at h
  | case2 s =>
    obtain ⟨-, rfl⟩ : _ ∧ _ = rest := by simpa using h
    simp
  | case3 => simp at h
  | case4 s c t hesc hlt ih =>
    obtain ⟨⟨b, r⟩, hbody, heq⟩ := Option.map_eq_some_iff.1 h
    obtain ⟨-, rfl⟩ : _ ∧ r = rest := by simpa using heq
    have := ih hbody
    simp only [List.length_cons]
    omega
  | case5 => simp at h
  | case6 c s _ _ _ ih =>
    obtain ⟨⟨b, r⟩, hbody, heq⟩ := Option.map_eq_some_iff.1 h
    obtain ⟨-, rfl⟩ : _ ∧ r = rest := by simpa using heq
    have := ih hbody
    simp only [List.length_cons]
    omega

/-- The largest integer that 64 bits hold. -/
def maxSignificand : Nat := UInt64.size - 1

/-- Digits gathered into one number, as long as it fits. -/
structure Gathered where
  significand : Nat
  /-- How many digits were taken in. -/
  taken : Nat
  /-- How many digits came after the last one taken in. -/
  dropped : Nat

/-- One more digit. Once a digit did not fit, the ones after it are dropped too. -/
def Gathered.add (g : Gathered) (digit : Char) : Gathered :=
  let next := g.significand * 10 + (digit.toNat - '0'.toNat)
  if g.dropped = 0 ∧ next ≤ maxSignificand then { g with significand := next, taken := g.taken + 1 }
  else { g with dropped := g.dropped + 1 }

/-- The digits gathered in turn, starting from a number already there. -/
def Gathered.ofDigits (start : Nat) (digits : Text) : Gathered := digits.foldl .add ⟨start, 0, 0⟩

/-- The number of a literal: its sign, the digits before and after the point, and its exponent; the
last two only where they are written. None where the number is too large. -/
def Number.ofLiteral? (minus : Bool) (whole : Text) (part : Option Text) (exponent : Option Int) :
    Option Number :=
  let w := Gathered.ofDigits 0 whole
  if part.isNone ∧ exponent.isNone ∧ w.dropped = 0 ∧
      (minus = true → w.significand ≠ 0 ∧ w.significand ≤ 0x8000000000000000) then
    some (if minus then .negative w.significand else .natural w.significand)
  else
    let p := Gathered.ofDigits w.significand (part.getD [])
    let e : Int := w.dropped - p.taken + exponent.getD 0
    (Binary64.ofDecimal? p.significand e).map (.real minus)

/-- The digits in front and what follows them. -/
def spanDigits (s : Text) : Text × Text := (s.takeWhile Char.isDigit, s.dropWhile Char.isDigit)

/-- The value of decimal digits. -/
def natOfDigits (digits : Text) : Nat :=
  digits.foldl (fun n c => n * 10 + (c.toNat - '0'.toNat)) 0

/-- The exponent in front, if one is written. -/
def exponent? : Text → Option (Option Int × Text)
  | e :: s =>
    if e = 'e' ∨ e = 'E' then
      let (minus, s) := match s with
        | '-' :: s => (true, s)
        | '+' :: s => (false, s)
        | s => (false, s)
      let (digits, rest) := spanDigits s
      if digits = [] then none
      else
        let n : Int := natOfDigits digits
        some (some (if minus then -n else n), rest)
    else some (none, e :: s)
  | [] => some (none, [])

/-- The digits behind the point in front, if there is one. -/
def fraction? : Text → Option (Option Text × Text)
  | '.' :: s =>
    let (digits, rest) := spanDigits s
    if digits = [] then none else some (some digits, rest)
  | s => some (none, s)

/-- The number in front of a text, its sign already read. A zero in front stands alone. -/
def number? (minus : Bool) (s : Text) : Option (Number × Text) := do
  let (whole, s) := spanDigits s
  if whole = [] ∨ whole.head? = some '0' ∧ whole.length ≠ 1 then none
  let (part, s) ← fraction? s
  let (exponent, s) ← exponent? s
  return (← Number.ofLiteral? minus whole part exponent, s)

/-- The token in front of a text that starts with no white space. -/
def nextToken? : Text → Option (Token × Text)
  | [] => none
  | '[' :: s => some (.arrayStart, s)
  | ']' :: s => some (.arrayEnd, s)
  | '\x7b' :: s => some (.objectStart, s)
  | '\x7d' :: s => some (.objectEnd, s)
  | ',' :: s => some (.comma, s)
  | ':' :: s => some (.colon, s)
  | '"' :: s => (stringBody? s).map fun (body, rest) => (.scalar (.string body), rest)
  | 'n' :: 'u' :: 'l' :: 'l' :: s => some (.scalar .null, s)
  | 't' :: 'r' :: 'u' :: 'e' :: s => some (.scalar (.bool true), s)
  | 'f' :: 'a' :: 'l' :: 's' :: 'e' :: s => some (.scalar (.bool false), s)
  | '-' :: s => (number? true s).map fun (n, rest) => (.scalar (.number n), rest)
  | s => (number? false s).map fun (n, rest) => (.scalar (.number n), rest)

theorem length_spanDigits (s : Text) :
    (spanDigits s).1.length + (spanDigits s).2.length = s.length := by
  rw [← List.length_append]
  simp [spanDigits]

theorem length_le_of_fraction {s rest : Text} {part : Option Text}
    (h : fraction? s = some (part, rest)) : rest.length ≤ s.length := by
  unfold fraction? at h
  split at h
  · rename_i t
    have := length_spanDigits t
    simp only at h
    split at h
    · simp at h
    · obtain ⟨-, rfl⟩ : _ ∧ _ = rest := by simpa using h
      simp only [List.length_cons]
      omega
  · obtain ⟨-, rfl⟩ : _ ∧ _ = rest := by simpa using h
    exact Nat.le_refl _

theorem length_le_of_exponent {s rest : Text} {e : Option Int}
    (h : exponent? s = some (e, rest)) : rest.length ≤ s.length := by
  unfold exponent? at h
  split at h
  · rename_i c t
    split at h
    · split at h
      rename_i minus u hu
      have hlen : u.length ≤ t.length := by
        split at hu <;> (obtain ⟨-, rfl⟩ : _ ∧ _ = u := by simpa using hu) <;> simp
      have := length_spanDigits u
      simp only at h
      split at h
      · simp at h
      · obtain ⟨-, rfl⟩ : _ ∧ _ = rest := by simpa using h
        simp only [List.length_cons]
        omega
    · obtain ⟨-, rfl⟩ : _ ∧ _ = rest := by simpa using h
      exact Nat.le_refl _
  · simp_all

theorem length_lt_of_number {minus : Bool} {s rest : Text} {n : Number}
    (h : number? minus s = some (n, rest)) : rest.length < s.length := by
  have hspan := length_spanDigits s
  unfold number? at h
  simp only at h
  split at h
  · simp at h
  · rename_i hwhole
    obtain ⟨⟨part, s₁⟩, hpart, h⟩ := Option.bind_eq_some_iff.1 h
    obtain ⟨⟨e, s₂⟩, hexp, h⟩ := Option.bind_eq_some_iff.1 h
    obtain ⟨m, -, h⟩ := Option.bind_eq_some_iff.1 h
    obtain ⟨-, rfl⟩ : _ ∧ s₂ = rest := by simpa using h
    have h₁ := length_le_of_fraction hpart
    have h₂ := length_le_of_exponent hexp
    simp only at h₁ h₂
    have hpos : 0 < (spanDigits s).1.length :=
      List.length_pos_iff.2 fun hnil => hwhole (.inl hnil)
    omega

theorem length_lt_of_nextToken {s rest : Text} {t : Token} (h : nextToken? s = some (t, rest)) :
    rest.length < s.length := by
  unfold nextToken? at h
  split at h
  case h_1 => simp at h
  case h_8 =>
    obtain ⟨⟨b, r⟩, hbody, heq⟩ := Option.map_eq_some_iff.1 h
    obtain ⟨-, rfl⟩ : _ ∧ r = rest := by simpa using heq
    have := length_lt_of_stringBody hbody
    simp only [List.length_cons]
    omega
  case h_12 =>
    obtain ⟨⟨n, r⟩, hnum, heq⟩ := Option.map_eq_some_iff.1 h
    obtain ⟨-, rfl⟩ : _ ∧ r = rest := by simpa using heq
    have := length_lt_of_number hnum
    simp only [List.length_cons]
    omega
  case h_13 =>
    obtain ⟨⟨n, r⟩, hnum, heq⟩ := Option.map_eq_some_iff.1 h
    obtain ⟨-, rfl⟩ : _ ∧ r = rest := by simpa using heq
    exact length_lt_of_number hnum
  all_goals
    obtain ⟨-, rfl⟩ : _ ∧ _ = rest := by simpa using h
    simp <;> omega

/-- All tokens of a text. -/
def tokens? (s : Text) : Option (List Token) :=
  match s with
  | [] => some []
  | c :: s =>
    if isBlank c then tokens? s
    else
      match h : nextToken? (c :: s) with
      | none => none
      | some (t, rest) =>
        have := length_lt_of_nextToken h
        (tokens? rest).map (t :: ·)
termination_by s.length
decreasing_by
  all_goals
    simp only [List.length_cons] at *
    omega

end ModulePack.Json
