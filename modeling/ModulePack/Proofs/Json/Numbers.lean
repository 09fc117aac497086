import Mathlib.Data.List.TakeWhile
import ModulePack.Json.Token
import ModulePack.Json.Writer

/-!
# Numbers read back

What stands behind a number does not change how it is read (`number?_append`), unless it goes on
with one (`EndsNumber`). The text of an integer of 64 bits is read back as that integer
(`number?_ofNat`), and no other integers are read (`inRange_of_number`).
-/

namespace ModulePack.Json

variable {s rest t : Text} {n : Nat} {minus : Bool}

/-- A text that goes on with no part of a number. -/
def EndsNumber (rest : Text) : Prop :=
  ∀ c, rest.head? = some c → c.isDigit = false ∧ c ≠ '.' ∧ c ≠ 'e' ∧ c ≠ 'E'

theorem endsNumber_nil : EndsNumber [] := fun _ h => nomatch h

theorem endsNumber_cons {c : Char} :
    EndsNumber (c :: rest) ↔ c.isDigit = false ∧ c ≠ '.' ∧ c ≠ 'e' ∧ c ≠ 'E' := by
  simp [EndsNumber]

/-! ### What stands behind a number -/

theorem spanDigits_append (hrest : EndsNumber rest) (s : Text) :
    spanDigits (s ++ rest) = ((spanDigits s).1, (spanDigits s).2 ++ rest) := by
  unfold spanDigits
  induction s with
  | nil =>
    cases rest with
    | nil => rfl
    | cons c rest => simp [(endsNumber_cons.1 hrest).1]
  | cons c s ih =>
    obtain ⟨htake, hdrop⟩ := Prod.mk.inj ih
    by_cases hc : c.isDigit = true <;> simp [hc, htake, hdrop]

theorem fraction?_append {part : Option Text} (h : fraction? s = some (part, t))
    (hrest : EndsNumber rest) : fraction? (s ++ rest) = some (part, t ++ rest) := by
  by_cases hpoint : ∃ u, s = '.' :: u
  · obtain ⟨u, rfl⟩ := hpoint
    rw [List.cons_append, fraction?, spanDigits_append hrest]
    rw [fraction?] at h
    simp only at h ⊢
    split at h
    · cases h
    · rename_i hdigits
      obtain ⟨rfl, rfl⟩ : _ = part ∧ _ = t := by simpa using h
      rw [if_neg hdigits]
  · have hplain (u : Text) (hu : ¬∃ w, u = '.' :: w) : fraction? u = some (none, u) := by
      unfold fraction?
      split
      · rename_i w
        exact absurd ⟨w, rfl⟩ hu
      · rfl
    rw [hplain s hpoint] at h
    obtain ⟨rfl, rfl⟩ : none = part ∧ s = t := by simpa using h
    refine hplain _ fun ⟨w, hw⟩ => ?_
    cases s with
    | nil =>
      rw [List.nil_append] at hw
      exact (endsNumber_cons.1 (hw ▸ hrest)).2.1 rfl
    | cons c s => exact hpoint ⟨s, by rw [(List.cons.inj hw).1]⟩

/-- Whether the exponent in front is negative, and what follows its sign. -/
def exponentSign : Text → Bool × Text
  | '-' :: s => (true, s)
  | '+' :: s => (false, s)
  | s => (false, s)

theorem exponentSign_append (hs : s ≠ []) (rest : Text) :
    exponentSign (s ++ rest) = ((exponentSign s).1, (exponentSign s).2 ++ rest) := by
  obtain ⟨c, s, rfl⟩ := List.exists_cons_of_ne_nil hs
  by_cases hminus : c = '-'
  · subst hminus
    rfl
  · by_cases hplus : c = '+'
    · subst hplus
      rfl
    · have hplain (u : Text) : exponentSign (c :: u) = (false, c :: u) := by
        unfold exponentSign
        split <;> simp_all
      rw [List.cons_append, hplain, hplain]
      rfl

theorem exponent?_mark {c : Char} (hc : c = 'e' ∨ c = 'E') (s : Text) :
    exponent? (c :: s) =
      let digits := spanDigits (exponentSign s).2
      if digits.1 = [] then none
      else
        let n : Int := natOfDigits digits.1
        some (some (if (exponentSign s).1 then -n else n), digits.2) :=
  if_pos hc

theorem exponent?_plain {c : Char} (hc : ¬(c = 'e' ∨ c = 'E')) (s : Text) :
    exponent? (c :: s) = some (none, c :: s) :=
  if_neg hc

theorem exponent?_append {e : Option Int} (h : exponent? s = some (e, t))
    (hrest : EndsNumber rest) : exponent? (s ++ rest) = some (e, t ++ rest) := by
  cases s with
  | nil =>
    obtain ⟨rfl, rfl⟩ : none = e ∧ [] = t := by simpa [exponent?] using h
    cases rest with
    | nil => rfl
    | cons c rest =>
      obtain ⟨-, -, he, hE⟩ := endsNumber_cons.1 hrest
      exact exponent?_plain (by simp [he, hE]) rest
  | cons c s =>
    by_cases hc : c = 'e' ∨ c = 'E'
    · rw [exponent?_mark hc] at h
      simp only at h
      split at h
      · cases h
      · rename_i hdigits
        obtain ⟨rfl, rfl⟩ : _ = e ∧ _ = t := by simpa using h
        have hs : s ≠ [] := by
          rintro rfl
          exact hdigits rfl
        rw [List.cons_append, exponent?_mark hc, exponentSign_append hs]
        simp only [spanDigits_append hrest]
        rw [if_neg hdigits]
    · rw [exponent?_plain hc] at h
      obtain ⟨rfl, rfl⟩ : none = e ∧ c :: s = t := by simpa using h
      exact exponent?_plain hc _

theorem number?_append {n : Number} (h : number? minus s = some (n, t)) (hrest : EndsNumber rest) :
    number? minus (s ++ rest) = some (n, t ++ rest) := by
  unfold number? at h ⊢
  simp only [spanDigits_append hrest] at h ⊢
  split at h
  · cases h
  · rename_i hwhole
    obtain ⟨⟨part, u⟩, hpart, h⟩ := Option.bind_eq_some_iff.1 h
    obtain ⟨⟨e, v⟩, hexp, h⟩ := Option.bind_eq_some_iff.1 h
    obtain ⟨m, hm, h⟩ := Option.bind_eq_some_iff.1 h
    obtain ⟨rfl, rfl⟩ : m = n ∧ v = t := by simpa using h
    rw [if_neg hwhole]
    simp only [fraction?_append hpart hrest, exponent?_append hexp hrest, hm, Option.bind_eq_bind,
      Option.bind_some]
    rfl

/-! ### Integers -/

theorem ofNat_of_lt (h : n < 10) : Text.ofNat n = [Nat.digitChar n] := Nat.toDigits_of_lt_base h

theorem ofNat_of_le (h : 10 ≤ n) :
    Text.ofNat n = Text.ofNat (n / 10) ++ [Nat.digitChar (n % 10)] :=
  Nat.toDigits_of_base_le (by omega) h

theorem ofNat_ne_nil (n : Nat) : Text.ofNat n ≠ [] := Nat.toDigits_ne_nil

theorem spanDigits_ofNat (n : Nat) : spanDigits (Text.ofNat n) = (Text.ofNat n, []) := by
  have hdigit : ∀ c ∈ Text.ofNat n, c.isDigit = true := fun c hc =>
    Nat.isDigit_of_mem_toDigits (by omega) (by omega) hc
  rw [spanDigits, List.takeWhile_eq_self_iff.2 hdigit, List.dropWhile_eq_nil_iff.2 hdigit]

/-- A zero in front stands alone. -/
theorem head?_ofNat (n : Nat) : (Text.ofNat n).head? = some '0' → n = 0 := by
  induction n using Nat.strongRecOn with
  | ind n ih =>
    intro h
    by_cases hn : n < 10
    · rw [ofNat_of_lt hn] at h
      have : ∀ d < 10, Nat.digitChar d = '0' → d = 0 := by decide
      exact this n hn (by simpa using h)
    · obtain ⟨c, digits, hcons⟩ :=
        List.exists_cons_of_ne_nil (ofNat_ne_nil (n / 10))
      rw [ofNat_of_le (by omega), hcons] at h
      have := ih (n / 10) (by omega) (by rw [hcons]; exact h)
      omega

theorem add_digitChar {m taken d : Nat} (hd : d < 10) (hfit : m * 10 + d ≤ maxSignificand) :
    Gathered.add ⟨m, taken, 0⟩ (Nat.digitChar d) = ⟨m * 10 + d, taken + 1, 0⟩ := by
  have hdigit : (Nat.digitChar d).toNat - '0'.toNat = d := Nat.toNat_digitChar_sub_48_of_lt_ten hd
  simp only [Gathered.add, hdigit, true_and, if_pos hfit]

theorem ofDigits_ofNat (h : n ≤ maxSignificand) :
    Gathered.ofDigits 0 (Text.ofNat n) = ⟨n, (Text.ofNat n).length, 0⟩ := by
  induction n using Nat.strongRecOn with
  | ind n ih =>
    by_cases hn : n < 10
    · rw [ofNat_of_lt hn, Gathered.ofDigits, List.foldl_cons, List.foldl_nil,
        add_digitChar hn (by omega), List.length_singleton, Nat.zero_mul, Nat.zero_add]
    · have hnext : n / 10 * 10 + n % 10 = n := Nat.div_add_mod' n 10
      rw [ofNat_of_le (by omega), Gathered.ofDigits, List.foldl_append, ← Gathered.ofDigits,
        ih (n / 10) (by omega) (by omega), List.foldl_cons, List.foldl_nil,
        add_digitChar (Nat.mod_lt _ (by omega)) (by omega), List.length_append,
        List.length_singleton, hnext]

theorem number?_ofNat (minus : Bool) (h : n ≤ maxSignificand)
    (hminus : minus = true → n ≠ 0 ∧ n ≤ 0x8000000000000000) :
    number? minus (Text.ofNat n) = some (if minus then .negative n else .natural n, []) := by
  have hwhole : ¬(Text.ofNat n = [] ∨ (Text.ofNat n).head? = some '0' ∧ (Text.ofNat n).length ≠ 1) := by
    rintro (hnil | ⟨hzero, hlen⟩)
    · exact ofNat_ne_nil n hnil
    · rw [head?_ofNat n hzero] at hlen
      exact hlen rfl
  have hliteral : Number.ofLiteral? minus (Text.ofNat n) none none =
      some (if minus then .negative n else .natural n) := by
    unfold Number.ofLiteral?
    simp only [ofDigits_ofNat h]
    rw [if_pos ⟨rfl, rfl, trivial, hminus⟩]
  unfold number?
  rw [spanDigits_ofNat]
  simp only [if_neg hwhole]
  show (do return (← Number.ofLiteral? minus (Text.ofNat n) none none, ([] : Text))) = _
  rw [hliteral]
  rfl

/-- An integer of 64 bits, with or without sign, or a number that is no integer. -/
def Number.InRange : Number → Prop
  | .natural n => n ≤ maxSignificand
  | .negative n => n ≠ 0 ∧ n ≤ 0x8000000000000000
  | .real _ _ => True

theorem ofDigits_le (whole : Text) : (Gathered.ofDigits 0 whole).significand ≤ maxSignificand := by
  have hadd : ∀ (digits : Text) (g : Gathered), g.significand ≤ maxSignificand →
      (digits.foldl Gathered.add g).significand ≤ maxSignificand := by
    intro digits
    induction digits with
    | nil => exact fun g hg => hg
    | cons c digits ih =>
      intro g hg
      refine ih _ ?_
      unfold Gathered.add
      simp only
      split
      · rename_i hfit
        exact hfit.2
      · exact hg
  exact hadd whole _ (Nat.zero_le _)

theorem inRange_of_number {n : Number} (h : number? minus s = some (n, t)) : n.InRange := by
  unfold number? at h
  simp only at h
  split at h
  · cases h
  · obtain ⟨⟨part, u⟩, -, h⟩ := Option.bind_eq_some_iff.1 h
    obtain ⟨⟨e, v⟩, -, h⟩ := Option.bind_eq_some_iff.1 h
    obtain ⟨m, hm, h⟩ := Option.bind_eq_some_iff.1 h
    obtain ⟨rfl, rfl⟩ : m = n ∧ v = t := by simpa using h
    unfold Number.ofLiteral? at hm
    simp only at hm
    split at hm
    · rename_i hinteger
      cases minus with
      | true =>
        obtain rfl : Number.negative _ = m := by simpa using hm
        exact hinteger.2.2.2 rfl
      | false =>
        obtain rfl : Number.natural _ = m := by simpa using hm
        exact ofDigits_le _
    · obtain ⟨x, -, rfl⟩ := Option.map_eq_some_iff.1 hm
      trivial

end ModulePack.Json
