import ModulePack.Proofs.Json.Written

/-!
# Values that are read

A value that is read from a text is nested at most `maxDepth` deep, has no key twice in an object,
and its integers have 64 bits (`sound_of_parse`): each token keeps that of all that is read so far.
-/

namespace ModulePack.Json

variable {room : Nat} {v : Json} {items : List Json} {fields : Fields} {stack : List Frame}
  {token : Token} {e e' : Expect} {s : Text}

/-- A value that can stand inside all but `room` of the containers that may be around one. -/
structure Sound (room : Nat) (v : Json) : Prop where
  fits : Fits room v
  numbers : ∀ n, Occurs n v → n.InRange

/-- Fields that an object may have. -/
structure Fields.IsSound (room : Nat) (fields : Fields) : Prop where
  keys : fields.keys.Nodup
  values : ∀ field ∈ fields, Sound room field.2

theorem Sound.array (h : ∀ v ∈ items, Sound room v) : Sound (room + 1) (.array items) := by
  refine ⟨.array fun v hv => (h v hv).fits, fun n hn => ?_⟩
  cases hn with
  | item hv hn => exact (h _ hv).numbers n hn

theorem Fields.IsSound.object (h : fields.IsSound room) : Sound (room + 1) (.object fields) := by
  refine ⟨.object h.keys fun field hfield => (h.values field hfield).fits, fun n hn => ?_⟩
  cases hn with
  | field hfield hn => exact (h.values _ hfield).numbers n hn

theorem Sound.isSound_fields (h : Sound (room + 1) (.object fields)) : fields.IsSound room := by
  obtain ⟨hfits, hnumbers⟩ := h
  cases hfits with
  | object hkeys hvalues =>
    exact ⟨hkeys, fun field hfield => ⟨hvalues field hfield, fun n hn =>
      hnumbers n (.field hfield hn)⟩⟩

theorem sound_null (room : Nat) : Sound room .null :=
  ⟨.null, fun _ h => nomatch h⟩

theorem sound_bool (room : Nat) (b : Bool) : Sound room (.bool b) :=
  ⟨.bool, fun _ h => nomatch h⟩

theorem sound_string (room : Nat) (s : Text) : Sound room (.string s) :=
  ⟨.string, fun _ h => nomatch h⟩

theorem sound_number {n : Number} (room : Nat) (h : n.InRange) : Sound room (.number n) := by
  refine ⟨.number, fun m hm => ?_⟩
  cases hm
  exact h

theorem Fields.isSound_nil (room : Nat) : Fields.IsSound room [] :=
  ⟨List.nodup_nil, fun _ h => absurd h List.not_mem_nil⟩

theorem mem_put {field : Text × Json} {key : Text} (h : field ∈ fields.put key v) :
    field ∈ fields ∨ field.2 = v := by
  induction fields with
  | nil => exact .inr (by rw [List.mem_singleton.1 h])
  | cons first fields ih =>
    obtain ⟨k, w⟩ := first
    unfold Fields.put at h
    split at h
    · rcases List.mem_cons.1 h with rfl | h
      · exact .inr rfl
      · exact .inl (List.mem_cons_of_mem _ h)
    · rcases List.mem_cons.1 h with rfl | h
      · exact .inl (List.mem_cons_self ..)
      · exact (ih h).imp_left (List.mem_cons_of_mem _)

theorem Fields.IsSound.put (h : fields.IsSound room) (hv : Sound room v) (key : Text) :
    (fields.put key v).IsSound room := by
  constructor
  · rw [keys_put]
    split
    · exact h.keys
    · rename_i hnew
      refine List.nodup_append.2 ⟨h.keys, by simp, fun k hk k' hk' heq => hnew ?_⟩
      rw [← List.mem_singleton.1 hk', ← heq]
      exact hk
  · intro field hfield
    rcases mem_put hfield with hold | rfl
    · exact h.values field hold
    · exact hv

/-! ### Tokens -/

def Token.IsSound : Token → Prop
  | .scalar v => ∀ room, Sound room v
  | _ => True

theorem isSound_of_nextToken {rest : Text} (h : nextToken? s = some (token, rest)) :
    token.IsSound := by
  unfold nextToken? at h
  split at h
  case h_1 => cases h
  case h_8 =>
    obtain ⟨⟨body, t⟩, -, heq⟩ := Option.map_eq_some_iff.1 h
    obtain ⟨rfl, rfl⟩ : Token.scalar (.string body) = token ∧ t = rest := by simpa using heq
    exact fun room => sound_string room body
  case h_9 =>
    obtain ⟨rfl, rfl⟩ : Token.scalar .null = token ∧ _ = rest := by simpa using h
    exact sound_null
  case h_10 | h_11 =>
    obtain ⟨rfl, rfl⟩ : Token.scalar (.bool _) = token ∧ _ = rest := by simpa using h
    exact fun room => sound_bool room _
  case h_12 | h_13 =>
    obtain ⟨⟨n, t⟩, hn, heq⟩ := Option.map_eq_some_iff.1 h
    obtain ⟨rfl, rfl⟩ : Token.scalar (.number n) = token ∧ t = rest := by simpa using heq
    exact fun room => sound_number room (inRange_of_number hn)
  all_goals
    obtain ⟨rfl, rfl⟩ : _ = token ∧ _ = rest := by simpa using h
    trivial

theorem isSound_of_mem_tokens {ts : List Token} (h : tokens? s = some ts) :
    ∀ token ∈ ts, token.IsSound := by
  fun_induction tokens? s generalizing ts with
  | case1 =>
    obtain rfl : [] = ts := Option.some.inj h
    simp
  | case2 c s _ ih => exact ih h
  | case3 => cases h
  | case4 c s _ token rest hnext _ ih =>
    obtain ⟨after, hafter, rfl⟩ := Option.map_eq_some_iff.1 h
    intro t ht
    rcases List.mem_cons.1 ht with rfl | ht
    · exact isSound_of_nextToken hnext
    · exact ih hafter t ht

/-! ### Open containers -/

def Frame.IsSound (room : Nat) : Frame → Prop
  | .array items => ∀ v ∈ items, Sound room v
  | .object fields _ => fields.IsSound room

/-- Open containers that leave `room` for more of them. -/
inductive StackSound : Nat → List Frame → Prop
  | nil : StackSound maxDepth []
  | cons {room : Nat} {frame : Frame} {stack : List Frame} (h : StackSound (room + 1) stack)
      (hframe : frame.IsSound room) : StackSound room (frame :: stack)

theorem StackSound.room_add (h : StackSound room stack) : room + stack.length = maxDepth := by
  induction h with
  | nil => rfl
  | cons _ _ ih =>
    rw [List.length_cons]
    omega

def Expect.IsSound : Expect → Prop
  | .value stack => ∃ room, StackSound room stack
  | .item stack | .field stack => ∃ room, StackSound (room + 1) stack
  | .key fields stack | .colon fields _ stack =>
    ∃ room, StackSound (room + 1) stack ∧ fields.IsSound room
  | .after v stack => ∃ room, StackSound room stack ∧ Sound room v

theorem isSound_beginValue (hstack : StackSound room stack) (ht : token.IsSound)
    (h : beginValue stack token = some e) : e.IsSound := by
  have hroom := hstack.room_add
  have hopen (hlt : stack.length < maxDepth) : ∃ room, StackSound (room + 1) stack := by
    obtain ⟨inner, rfl⟩ : ∃ inner, room = inner + 1 := ⟨room - 1, by omega⟩
    exact ⟨inner, hstack⟩
  unfold beginValue at h
  split at h
  · obtain rfl := Option.some.inj h
    exact ⟨room, hstack, ht room⟩
  · split at h
    · rename_i hlt
      obtain rfl := Option.some.inj h
      exact hopen hlt
    · cases h
  · split at h
    · rename_i hlt
      obtain rfl := Option.some.inj h
      exact hopen hlt
    · cases h
  · cases h

theorem isSound_snoc (hitems : ∀ w ∈ items, Sound room w) (hv : Sound room v) :
    ∀ w ∈ items ++ [v], Sound room w := by
  intro w hw
  rcases List.mem_append.1 hw with hw | hw
  · exact hitems w hw
  · exact List.mem_singleton.1 hw ▸ hv

theorem Expect.IsSound.next (he : e.IsSound) (ht : token.IsSound)
    (h : e.next? token = some e') : e'.IsSound := by
  have hnone : ∀ {room : Nat}, ∀ v ∈ ([] : List Json), Sound room v :=
    fun _ h => absurd h List.not_mem_nil
  unfold Expect.next? at h
  split at h
  case h_1 =>
    obtain ⟨room, hstack⟩ := he
    obtain rfl := Option.some.inj h
    exact ⟨room + 1, hstack, .array hnone⟩
  case h_2 =>
    obtain ⟨room, hstack⟩ := he
    have hopened : StackSound room (.array [] :: _) := .cons hstack hnone
    exact isSound_beginValue hopened ht h
  case h_3 =>
    obtain ⟨room, hstack⟩ := he
    obtain rfl := Option.some.inj h
    exact ⟨room + 1, hstack, (Fields.isSound_nil room).object⟩
  case h_4 =>
    obtain ⟨room, hstack⟩ := he
    obtain rfl := Option.some.inj h
    exact ⟨room, hstack, Fields.isSound_nil room⟩
  case h_5 =>
    obtain rfl := Option.some.inj h
    exact he
  case h_6 =>
    obtain ⟨room, hstack, hfields⟩ := he
    obtain rfl := Option.some.inj h
    exact ⟨room, .cons hstack hfields⟩
  case h_7 =>
    obtain ⟨room, hstack⟩ := he
    exact isSound_beginValue hstack ht h
  case h_8 =>
    obtain ⟨room, hstack, hv⟩ := he
    obtain rfl := Option.some.inj h
    cases hstack with
    | cons hstack hitems => exact ⟨room, .cons hstack (isSound_snoc hitems hv)⟩
  case h_9 =>
    obtain ⟨room, hstack, hv⟩ := he
    obtain rfl := Option.some.inj h
    cases hstack with
    | cons hstack hitems => exact ⟨room + 1, hstack, .array (isSound_snoc hitems hv)⟩
  case h_10 =>
    obtain ⟨room, hstack, hv⟩ := he
    obtain rfl := Option.some.inj h
    cases hstack with
    | cons hstack hfields => exact ⟨room, hstack, hfields.put hv _⟩
  case h_11 =>
    obtain ⟨room, hstack, hv⟩ := he
    obtain rfl := Option.some.inj h
    cases hstack with
    | cons hstack hfields => exact ⟨room + 1, hstack, (hfields.put hv _).object⟩
  case h_12 => cases h

/-- What is read can be written and read again, but for numbers that are no integers. -/
theorem sound_of_parse (h : parse? s = some v) : Sound maxDepth v := by
  obtain ⟨ts, hts, h⟩ := Option.bind_eq_some_iff.1 h
  obtain ⟨final, hrun, h⟩ := Option.bind_eq_some_iff.1 h
  have hfinal : final.IsSound :=
    run_induct (fun token htoken _ _ he h => he.next (isSound_of_mem_tokens hts token htoken) h)
      (show (Expect.value []).IsSound from ⟨maxDepth, .nil⟩) hrun
  split at h
  · obtain rfl := Option.some.inj h
    obtain ⟨room, hstack, hv⟩ := hfinal
    cases hstack
    exact hv
  · cases h

/-- Every number of a sound value is read back if those that are no integers are. -/
theorem Sound.isReread (h : Sound room v)
    (hreal : ∀ minus x, Occurs (.real minus x) v → (Number.real minus x).IsReread) :
    ∀ n, Occurs n v → n.IsReread := by
  intro n hn
  cases n with
  | natural n => exact isReread_natural (h.numbers _ hn)
  | negative n => exact isReread_negative (h.numbers _ hn).1 (h.numbers _ hn).2
  | real minus x => exact hreal minus x hn

end ModulePack.Json
