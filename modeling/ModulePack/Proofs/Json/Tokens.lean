import ModulePack.Json.Reader
import ModulePack.Proofs.Json.Numbers
import ModulePack.Proofs.Json.Strings

/-!
# Tokens in front of a text

What the first tokens of a text are, for all that a value is written with. A number is one token
wherever it stands, if it is read back from its own text (`tokens?_append_number`), as every integer
of 64 bits is (`isReread_natural`, `isReread_negative`).
-/

namespace ModulePack.Json

variable {s rest t : Text} {c : Char} {v : Json} {n : Number} {stack : List Frame}

/-! ### Tokens in front -/

theorem tokens?_nil : tokens? [] = some [] := by rw [tokens?]

theorem tokens?_blank (hc : isBlank c = true) (s : Text) : tokens? (c :: s) = tokens? s := by
  rw [tokens?, if_pos hc]

theorem tokens?_of_nextToken {token : Token} (hc : isBlank c = false)
    (h : nextToken? (c :: s) = some (token, rest)) :
    tokens? (c :: s) = (tokens? rest).map (token :: ·) := by
  rw [tokens?, if_neg (by simp [hc])]
  split
  · rename_i hnone
    rw [h] at hnone
    cases hnone
  · rename_i hsome
    rw [h] at hsome
    cases hsome
    rfl

theorem tokens?_line (layout : Layout) (level : Nat) (s : Text) :
    tokens? (layout.line level ++ s) = tokens? s := by
  cases layout with
  | compact => rfl
  | pretty =>
    have hspaces (count : Nat) : tokens? (List.replicate count ' ' ++ s) = tokens? s := by
      induction count with
      | zero => rfl
      | succ count ih => rw [List.replicate_succ, List.cons_append, tokens?_blank rfl, ih]
    rw [Layout.line, List.cons_append, tokens?_blank rfl, hspaces]

theorem tokens?_colon (layout : Layout) (s : Text) :
    tokens? (layout.colon ++ s) = (tokens? s).map (.colon :: ·) := by
  cases layout with
  | compact => exact tokens?_of_nextToken rfl rfl
  | pretty =>
    have hspace : tokens? (' ' :: s) = tokens? s := tokens?_blank rfl s
    rw [← hspace]
    exact tokens?_of_nextToken rfl rfl

theorem nextToken?_quote (s : Text) : nextToken? ('"' :: s) =
    (stringBody? s).map fun (body, rest) => (.scalar (.string body), rest) := rfl

theorem tokens?_stringText (s rest : Text) :
    tokens? (stringText s ++ rest) = (tokens? rest).map (.scalar (.string s) :: ·) := by
  have hbody : stringText s ++ rest = '"' :: (s.flatMap escapeChar ++ '"' :: rest) := by
    simp [stringText]
  rw [hbody]
  exact tokens?_of_nextToken rfl (by rw [nextToken?_quote, stringBody?_flatMap]; rfl)

/-! ### Numbers as tokens -/

theorem nextToken?_digit (hc : c.isDigit = true) (s : Text) : nextToken? (c :: s) =
    (number? false (c :: s)).map fun (n, rest) => (.scalar (.number n), rest) := by
  unfold nextToken?
  split <;> first | rfl | simp_all

theorem nextToken?_minus (s : Text) : nextToken? ('-' :: s) =
    (number? true s).map fun (n, rest) => (.scalar (.number n), rest) := rfl

theorem isBlank_of_isDigit (hc : c.isDigit = true) : isBlank c = false := by
  by_contra hblank
  simp only [isBlank, Bool.not_eq_false, Bool.or_eq_true, beq_iff_eq] at hblank
  rcases hblank with ((rfl | rfl) | rfl) | rfl <;> cases hc

theorem isDigit_of_number {minus : Bool} (h : number? minus (c :: s) = some (n, t)) :
    c.isDigit = true := by
  by_contra hc
  have hspan : (spanDigits (c :: s)).1 = [] := by simp [spanDigits, hc]
  unfold number? at h
  simp [hspan] at h

/-- A number in front stays the same whatever ends it. -/
theorem nextToken?_append (h : nextToken? s = some (.scalar (.number n), t))
    (hrest : EndsNumber rest) : nextToken? (s ++ rest) = some (.scalar (.number n), t ++ rest) := by
  have hmap {minus : Bool} {u : Text}
      (h : ((number? minus u).map fun (n, rest) => (Token.scalar (.number n), rest)) =
        some (.scalar (.number n), t)) : number? minus u = some (n, t) := by
    obtain ⟨⟨n', t'⟩, hnumber, heq⟩ := Option.map_eq_some_iff.1 h
    obtain ⟨rfl, rfl⟩ : n' = n ∧ t' = t := by simpa using heq
    exact hnumber
  unfold nextToken? at h
  split at h
  case h_12 =>
    rw [List.cons_append, nextToken?_minus, number?_append (hmap h) hrest]
    rfl
  case h_13 hnil _ _ _ _ _ _ _ _ _ _ _ =>
    obtain ⟨c, u, rfl⟩ := List.exists_cons_of_ne_nil hnil
    have hnumber := hmap h
    rw [List.cons_append, nextToken?_digit (isDigit_of_number hnumber), ← List.cons_append,
      number?_append hnumber hrest]
    rfl
  all_goals simp at h

/-! ### Runs over tokens -/

/-- What each token keeps, a run over the tokens keeps. -/
theorem run_induct {P : Expect → Prop} {ts : List Token} {e e' : Expect}
    (hstep : ∀ token ∈ ts, ∀ e e', P e → e.next? token = some e' → P e')
    (he : P e) (hrun : ts.foldlM Expect.next? e = some e') : P e' := by
  induction ts generalizing e with
  | nil =>
    obtain rfl : e = e' := by simpa using hrun
    exact he
  | cons token ts ih =>
    rw [List.foldlM_cons] at hrun
    obtain ⟨e₁, hnext, hrun⟩ := Option.bind_eq_some_iff.1 hrun
    exact ih (fun token ht => hstep token (List.mem_cons_of_mem _ ht))
      (hstep token (List.mem_cons_self ..) e e₁ he hnext) hrun

/-- The run is inside a container, or has just left one. -/
def Expect.Opened : Expect → Prop
  | .value stack => stack ≠ []
  | .item _ | .field _ | .key _ _ | .colon _ _ _ => True
  | .after v stack => stack ≠ [] ∨ ∀ n, v ≠ .number n

theorem opened_beginValue {token : Token} {e : Expect} (hstack : stack ≠ [])
    (h : beginValue stack token = some e) : e.Opened := by
  unfold beginValue at h
  split at h
  · obtain rfl : Expect.after _ stack = e := by simpa using h
    exact .inl hstack
  · obtain ⟨-, rfl⟩ : _ ∧ Expect.item stack = e := by simpa using h
    trivial
  · obtain ⟨-, rfl⟩ : _ ∧ Expect.field stack = e := by simpa using h
    trivial
  · cases h

theorem Expect.Opened.next {e e' : Expect} {token : Token} (he : e.Opened)
    (h : e.next? token = some e') : e'.Opened := by
  unfold Expect.next? at h
  split at h
  case h_2 => exact opened_beginValue (List.cons_ne_nil _ _) h
  case h_7 => exact opened_beginValue he h
  case h_12 => cases h
  all_goals
    obtain rfl := Option.some.inj h
    simp [Expect.Opened]

/-- Only the token of a number is read as that number. -/
theorem tokens?_of_parse (h : parse? s = some (.number n)) :
    tokens? s = some [.scalar (.number n)] := by
  obtain ⟨ts, hts, h⟩ := Option.bind_eq_some_iff.1 h
  obtain ⟨final, hrun, h⟩ := Option.bind_eq_some_iff.1 h
  obtain ⟨v, rfl, hv⟩ : ∃ v, final = .after v [] ∧ v = .number n := by
    split at h
    · exact ⟨_, rfl, Option.some.inj h⟩
    · cases h
  subst hv
  rw [hts]
  cases ts with
  | nil => cases hrun
  | cons token ts =>
    rw [List.foldlM_cons] at hrun
    obtain ⟨e, hnext, hrun⟩ := Option.bind_eq_some_iff.1 hrun
    have hopened : ¬e.Opened := fun he => by
      have := run_induct (fun _ _ _ _ he h => he.next h) he hrun
      simp [Expect.Opened] at this
    cases token with
    | scalar v =>
      obtain rfl : Expect.after v [] = e := by simpa [Expect.next?, beginValue] using hnext
      cases ts with
      | nil =>
        obtain rfl : v = .number n := by simpa using hrun
        rfl
      | cons token ts => cases hrun
    | arrayStart =>
      obtain rfl : Expect.item [] = e := by simpa [Expect.next?, beginValue, maxDepth] using hnext
      exact absurd trivial hopened
    | objectStart =>
      obtain rfl : Expect.field [] = e := by simpa [Expect.next?, beginValue, maxDepth] using hnext
      exact absurd trivial hopened
    | _ => cases hnext

theorem tokens?_append_blank (h : tokens? s = some []) (rest : Text) :
    tokens? (s ++ rest) = tokens? rest := by
  induction s with
  | nil => rfl
  | cons c s ih =>
    rw [tokens?] at h
    split at h
    · rename_i hc
      rw [List.cons_append, tokens?_blank hc, ih h]
    · split at h
      · cases h
      · simp at h

theorem tokens?_append_number (h : tokens? s = some [.scalar (.number n)])
    (hrest : EndsNumber rest) :
    tokens? (s ++ rest) = (tokens? rest).map (.scalar (.number n) :: ·) := by
  induction s with
  | nil => simp [tokens?_nil] at h
  | cons c s ih =>
    rw [tokens?] at h
    split at h
    · rename_i hc
      rw [List.cons_append, tokens?_blank hc, ih h]
    · rename_i hc
      split at h
      · cases h
      · rename_i token t hnext
        obtain ⟨ts, hts, heq⟩ := Option.map_eq_some_iff.1 h
        obtain ⟨rfl, rfl⟩ : token = .scalar (.number n) ∧ ts = [] := by simpa using heq
        have hnext' := nextToken?_append hnext hrest
        rw [List.cons_append] at hnext' ⊢
        rw [tokens?_of_nextToken (by simpa using hc) hnext', tokens?_append_blank hts]

/-- The number is read back from its text. -/
def Number.IsReread (n : Number) : Prop := parse? n.text = some (.number n)

instance (n : Number) : Decidable n.IsReread :=
  match h : parse? n.text with
  | some (.number m) => decidable_of_iff (m = n) (by simp [Number.IsReread, h])
  | none | some .null | some (.bool _) | some (.string _) | some (.array _) | some (.object _) =>
    isFalse (by simp [Number.IsReread, h])

theorem parse?_of_scalar (h : tokens? s = some [.scalar v]) : parse? s = some v := by
  simp [parse?, h, Expect.next?, beginValue]

theorem parse?_stringText (s : Text) : parse? (stringText s) = some (.string s) := by
  have h := tokens?_stringText s []
  rw [List.append_nil, tokens?_nil] at h
  exact parse?_of_scalar h

theorem isReread_natural {n : Nat} (h : n ≤ maxSignificand) : (Number.natural n).IsReread := by
  have hnumber := number?_ofNat false h (by simp)
  obtain ⟨c, digits, hcons⟩ := List.exists_cons_of_ne_nil (ofNat_ne_nil n)
  rw [hcons] at hnumber
  have hdigit := isDigit_of_number hnumber
  have hnext := nextToken?_digit hdigit digits
  rw [hnumber] at hnext
  refine parse?_of_scalar ?_
  rw [Number.text, hcons, tokens?_of_nextToken (isBlank_of_isDigit hdigit) hnext, tokens?_nil]
  rfl

theorem isReread_negative {n : Nat} (hn : n ≠ 0) (h : n ≤ 0x8000000000000000) :
    (Number.negative n).IsReread := by
  have hnumber := number?_ofNat true (h.trans (by decide)) fun _ => ⟨hn, h⟩
  refine parse?_of_scalar ?_
  have hnext := nextToken?_minus (Text.ofNat n)
  rw [hnumber] at hnext
  rw [Number.text, tokens?_of_nextToken rfl hnext, tokens?_nil]
  rfl

end ModulePack.Json
