import ModulePack.Proofs.Json.Tokens

/-!
# Values read back

A value is read back as it was written, on one line or with an item a line (`parse?_write`), if it
is not nested too deeply, no key stands twice in an object (`Fits`), and its numbers are read back.
-/

namespace ModulePack.Json

variable {s rest : Text} {c : Char} {v : Json} {layout : Layout} {level : Nat}

/-- The number occurs somewhere in a value. -/
inductive Occurs (n : Number) : Json → Prop
  | number : Occurs n (.number n)
  | item {v : Json} {items : List Json} (hv : v ∈ items) (h : Occurs n v) : Occurs n (.array items)
  | field {field : Text × Json} {fields : Fields} (hfield : field ∈ fields)
      (h : Occurs n field.2) : Occurs n (.object fields)

/-- The value has at most `room` containers around any part of it, and in none of them a key that
stands twice. -/
inductive Fits : Nat → Json → Prop
  | null {room : Nat} : Fits room .null
  | bool {room : Nat} {b : Bool} : Fits room (.bool b)
  | number {room : Nat} {n : Number} : Fits room (.number n)
  | string {room : Nat} {s : Text} : Fits room (.string s)
  | array {room : Nat} {items : List Json} (h : ∀ v ∈ items, Fits room v) :
      Fits (room + 1) (.array items)
  | object {room : Nat} {fields : Fields} (hkeys : fields.keys.Nodup)
      (h : ∀ field ∈ fields, Fits room field.2) : Fits (room + 1) (.object fields)

mutual

/-- The tokens of a value. -/
def spell : Json → List Token
  | .null => [.scalar .null]
  | .bool b => [.scalar (.bool b)]
  | .number n => [.scalar (.number n)]
  | .string s => [.scalar (.string s)]
  | .array [] => [.arrayStart, .arrayEnd]
  | .array (v :: items) => .arrayStart :: (spell v ++ spellItems items)
  | .object [] => [.objectStart, .objectEnd]
  | .object ((key, v) :: fields) =>
    .objectStart :: .scalar (.string key) :: .colon :: (spell v ++ spellFields fields)

/-- The tokens of an array behind its first item. -/
def spellItems : List Json → List Token
  | [] => [.arrayEnd]
  | v :: items => .comma :: (spell v ++ spellItems items)

/-- The tokens of an object behind its first field. -/
def spellFields : Fields → List Token
  | [] => [.objectEnd]
  | (key, v) :: fields => .comma :: .scalar (.string key) :: .colon :: (spell v ++ spellFields fields)

end

theorem endsNumber_line (hc : EndsNumber (c :: rest)) (layout : Layout) (level : Nat) :
    EndsNumber (layout.line level ++ c :: rest) := by
  cases layout with
  | compact => exact hc
  | pretty => exact endsNumber_cons.2 (by decide)

theorem endsNumber_writeItems (items : List Json) (rest : Text) :
    EndsNumber (writeItems layout level items ++ rest) := by
  cases items with
  | nil =>
    rw [writeItems, List.append_assoc]
    exact endsNumber_line (endsNumber_cons.2 (by decide)) layout level
  | cons v items =>
    rw [writeItems]
    exact endsNumber_cons.2 (by decide)

theorem endsNumber_writeFields (fields : Fields) (rest : Text) :
    EndsNumber (writeFields layout level fields ++ rest) := by
  cases fields with
  | nil =>
    rw [writeFields, List.append_assoc]
    exact endsNumber_line (endsNumber_cons.2 (by decide)) layout level
  | cons field fields =>
    rw [writeFields]
    exact endsNumber_cons.2 (by decide)

mutual

theorem tokens?_write (layout : Layout) (level : Nat) (rest : Text) (hrest : EndsNumber rest) :
    ∀ v : Json, (∀ n, Occurs n v → n.IsReread) →
      tokens? (write layout level v ++ rest) = (tokens? rest).map (spell v ++ ·)
  | .null, _ => by
    rw [write]
    exact tokens?_of_nextToken rfl rfl
  | .bool true, _ => by
    rw [write]
    exact tokens?_of_nextToken rfl rfl
  | .bool false, _ => by
    rw [write]
    exact tokens?_of_nextToken rfl rfl
  | .number n, h => by
    rw [write]
    exact tokens?_append_number (tokens?_of_parse (h n .number)) hrest
  | .string s, _ => by
    rw [write]
    exact tokens?_stringText s rest
  | .array [], _ => by
    rw [write]
    simp only [List.cons_append, List.nil_append]
    rw [tokens?_of_nextToken rfl rfl, tokens?_of_nextToken rfl rfl, Option.map_map]
    rfl
  | .array (v :: items), h => by
    have hfirst := tokens?_write layout (level + 1) (writeItems layout level items ++ rest)
      (endsNumber_writeItems items rest) v fun n hn => h n (.item (List.mem_cons_self ..) hn)
    have hitems := tokens?_writeItems layout level rest items fun v hv n hn =>
      h n (.item (List.mem_cons_of_mem _ hv) hn)
    rw [write]
    simp only [List.cons_append, List.append_assoc]
    rw [tokens?_of_nextToken rfl rfl, tokens?_line, hfirst, hitems]
    simp [spell, Function.comp_def]
  | .object [], _ => by
    rw [write]
    simp only [List.cons_append, List.nil_append]
    rw [tokens?_of_nextToken rfl rfl, tokens?_of_nextToken rfl rfl, Option.map_map]
    rfl
  | .object ((key, v) :: fields), h => by
    have hfirst := tokens?_write layout (level + 1) (writeFields layout level fields ++ rest)
      (endsNumber_writeFields fields rest) v fun n hn => h n (.field (List.mem_cons_self ..) hn)
    have hfields := tokens?_writeFields layout level rest fields fun field hfield n hn =>
      h n (.field (List.mem_cons_of_mem _ hfield) hn)
    rw [write]
    simp only [List.cons_append, List.append_assoc]
    rw [tokens?_of_nextToken rfl rfl, tokens?_line, tokens?_stringText, tokens?_colon, hfirst,
      hfields]
    simp [spell, Function.comp_def]

theorem tokens?_writeItems (layout : Layout) (level : Nat) (rest : Text) :
    ∀ items : List Json, (∀ v ∈ items, ∀ n, Occurs n v → n.IsReread) →
      tokens? (writeItems layout level items ++ rest) = (tokens? rest).map (spellItems items ++ ·)
  | [], _ => by
    rw [writeItems]
    simp only [List.append_assoc, List.singleton_append]
    rw [tokens?_line, tokens?_of_nextToken rfl rfl]
    rfl
  | v :: items, h => by
    have hfirst := tokens?_write layout (level + 1) (writeItems layout level items ++ rest)
      (endsNumber_writeItems items rest) v (h v (List.mem_cons_self ..))
    have hitems := tokens?_writeItems layout level rest items fun v hv =>
      h v (List.mem_cons_of_mem _ hv)
    rw [writeItems]
    simp only [List.cons_append, List.append_assoc]
    rw [tokens?_of_nextToken rfl rfl, tokens?_line, hfirst, hitems]
    simp [spellItems, Function.comp_def]

theorem tokens?_writeFields (layout : Layout) (level : Nat) (rest : Text) :
    ∀ fields : Fields, (∀ field ∈ fields, ∀ n, Occurs n field.2 → n.IsReread) →
      tokens? (writeFields layout level fields ++ rest) =
        (tokens? rest).map (spellFields fields ++ ·)
  | [], _ => by
    rw [writeFields]
    simp only [List.append_assoc, List.singleton_append]
    rw [tokens?_line, tokens?_of_nextToken rfl rfl]
    rfl
  | (key, v) :: fields, h => by
    have hfirst := tokens?_write layout (level + 1) (writeFields layout level fields ++ rest)
      (endsNumber_writeFields fields rest) v (h _ (List.mem_cons_self ..))
    have hfields := tokens?_writeFields layout level rest fields fun field hfield =>
      h field (List.mem_cons_of_mem _ hfield)
    rw [writeFields]
    simp only [List.cons_append, List.append_assoc]
    rw [tokens?_of_nextToken rfl rfl, tokens?_line, tokens?_stringText, tokens?_colon, hfirst,
      hfields]
    simp [spellFields, Function.comp_def]

end

/-! ### Runs over the tokens of a value -/

/-- A key that is not there yet goes to the end. -/
theorem put_of_not_mem {fields : Fields} {key : Text} (h : key ∉ fields.keys) (v : Json) :
    fields.put key v = fields ++ [(key, v)] := by
  induction fields with
  | nil => rfl
  | cons field fields ih =>
    obtain ⟨hne, hmem⟩ : key ≠ field.1 ∧ key ∉ Fields.keys fields := by
      simpa [Fields.keys, not_or] using h
    rw [Fields.put, if_neg (Ne.symm hne), ih hmem, List.cons_append]

theorem not_mem_keys_of_nodup {before after : Fields} {key : Text}
    (h : (Fields.keys (before ++ (key, v) :: after)).Nodup) : key ∉ before.keys := by
  simp only [Fields.keys, List.map_append, List.map_cons] at h
  exact fun hmem => (List.nodup_append.1 h).2.2 key hmem key (List.mem_cons_self ..) rfl

/-- The first item of an array is read as any other. -/
theorem run_item (v : Json) (stack : List Frame) (ts : List Token) :
    (spell v ++ ts).foldlM Expect.next? (.item stack) =
      (spell v ++ ts).foldlM Expect.next? (.value (.array [] :: stack)) := by
  cases v with
  | array items => cases items <;> rfl
  | object fields => cases fields <;> rfl
  | _ => rfl

mutual

theorem run_spell (ts : List Token) : ∀ (v : Json) (room : Nat) (stack : List Frame),
    Fits room v → room + stack.length = maxDepth →
      (spell v ++ ts).foldlM Expect.next? (.value stack) = ts.foldlM Expect.next? (.after v stack)
  | .null, _, _, _, _ => rfl
  | .bool _, _, _, _, _ => rfl
  | .number _, _, _, _, _ => rfl
  | .string _, _, _, _, _ => rfl
  | .array [], room, stack, h, hroom => by
    cases h with
    | @array room _ h =>
      have hlt : stack.length < maxDepth := by omega
      rw [spell]
      simp [Expect.next?, beginValue, hlt]
  | .array (v :: items), room, stack, h, hroom => by
    cases h with
    | @array room _ h =>
      have hlt : stack.length < maxDepth := by omega
      have hfirst := run_spell (spellItems items ++ ts) v room (.array [] :: stack)
        (h v (List.mem_cons_self ..)) (by simp only [List.length_cons]; omega)
      have hitems := run_spellItems ts items room stack [] v
        (fun w hw => h w (List.mem_cons_of_mem _ hw)) (by omega)
      rw [← run_item, hitems] at hfirst
      rw [spell, List.cons_append, List.append_assoc, List.foldlM_cons]
      simpa [Expect.next?, beginValue, hlt] using hfirst
  | .object [], room, stack, h, hroom => by
    cases h with
    | @object room _ _ h =>
      have hlt : stack.length < maxDepth := by omega
      rw [spell]
      simp [Expect.next?, beginValue, hlt]
  | .object ((key, v) :: fields), room, stack, h, hroom => by
    cases h with
    | @object room _ hkeys h =>
      have hlt : stack.length < maxDepth := by omega
      have hfirst := run_spell (spellFields fields ++ ts) v room (.object [] key :: stack)
        (h _ (List.mem_cons_self ..)) (by simp only [List.length_cons]; omega)
      have hfields := run_spellFields ts fields room stack [] key v hkeys
        (fun field hfield => h field (List.mem_cons_of_mem _ hfield)) (by omega)
      rw [hfields] at hfirst
      rw [spell, List.cons_append, List.cons_append, List.cons_append, List.append_assoc,
        List.foldlM_cons]
      simpa [Expect.next?, beginValue, hlt] using hfirst

theorem run_spellItems (ts : List Token) : ∀ (items : List Json) (room : Nat) (stack : List Frame)
    (before : List Json) (v : Json), (∀ w ∈ items, Fits room w) → room + 1 + stack.length = maxDepth →
      (spellItems items ++ ts).foldlM Expect.next? (.after v (.array before :: stack)) =
        ts.foldlM Expect.next? (.after (.array (before ++ v :: items)) stack)
  | [], _, _, _, _, _, _ => rfl
  | w :: items, room, stack, before, v, h, hroom => by
    have hfirst := run_spell (spellItems items ++ ts) w room (.array (before ++ [v]) :: stack)
      (h w (List.mem_cons_self ..)) (by simp only [List.length_cons]; omega)
    have hitems := run_spellItems ts items room stack (before ++ [v]) w
      (fun u hu => h u (List.mem_cons_of_mem _ hu)) hroom
    rw [hitems, List.append_assoc, List.singleton_append] at hfirst
    rw [spellItems, List.cons_append, List.append_assoc]
    exact hfirst

theorem run_spellFields (ts : List Token) : ∀ (fields : Fields) (room : Nat) (stack : List Frame)
    (before : Fields) (key : Text) (v : Json), (Fields.keys (before ++ (key, v) :: fields)).Nodup →
      (∀ field ∈ fields, Fits room field.2) → room + 1 + stack.length = maxDepth →
      (spellFields fields ++ ts).foldlM Expect.next? (.after v (.object before key :: stack)) =
        ts.foldlM Expect.next? (.after (.object (before ++ (key, v) :: fields)) stack)
  | [], _, _, before, key, v, hkeys, _, _ => by
    have hnew := not_mem_keys_of_nodup hkeys
    rw [spellFields, List.singleton_append, List.foldlM_cons, Expect.next?, put_of_not_mem hnew]
    rfl
  | (key', w) :: fields, room, stack, before, key, v, hkeys, h, hroom => by
    have hnew := not_mem_keys_of_nodup hkeys
    have hfirst := run_spell (spellFields fields ++ ts) w room
      (.object (before ++ [(key, v)]) key' :: stack) (h _ (List.mem_cons_self ..))
      (by simp only [List.length_cons]; omega)
    have hfields := run_spellFields ts fields room stack (before ++ [(key, v)]) key' w
      (by simpa using hkeys) (fun field hfield => h field (List.mem_cons_of_mem _ hfield)) hroom
    rw [hfields, List.append_assoc, List.singleton_append] at hfirst
    rw [spellFields, List.cons_append, List.cons_append, List.cons_append, List.append_assoc,
      List.foldlM_cons, Expect.next?, put_of_not_mem hnew]
    exact hfirst

end

/-- A value is read back as it was written. -/
theorem parse?_write (layout : Layout) (hv : Fits maxDepth v)
    (hnumbers : ∀ n, Occurs n v → n.IsReread) (hs : tokens? s = some []) (hrest : EndsNumber s) :
    parse? (write layout 0 v ++ s) = some v := by
  have hrun := run_spell [] v maxDepth [] hv rfl
  rw [List.append_nil] at hrun
  rw [parse?, tokens?_write layout 0 s hrest v hnumbers, hs]
  simp only [Option.map_some, List.append_nil, Option.bind_eq_bind, Option.bind_some, hrun]
  rfl

theorem parse?_compact (hv : Fits maxDepth v) (hnumbers : ∀ n, Occurs n v → n.IsReread) :
    parse? v.compact = some v := by
  have h := parse?_write .compact hv hnumbers tokens?_nil endsNumber_nil
  rwa [List.append_nil] at h

/-- No JSON text begins like `undefined`. -/
theorem head?_compact_ne (v : Json) : v.compact.head? ≠ some 'u' := by
  unfold compact
  cases v with
  | null => rw [write]; decide
  | bool b => cases b <;> rw [write] <;> decide
  | number n =>
    rw [write]
    intro h
    have hnumeral := List.all_eq_true.1 (all_isNumeral_number n) _ (List.mem_of_head? h)
    revert hnumeral
    decide
  | string s =>
    rw [write]
    exact show some '"' ≠ some 'u' by decide
  | array items =>
    cases items <;> rw [write] <;> exact show some '[' ≠ some 'u' by decide
  | object fields =>
    cases fields <;> rw [write] <;> exact show some '\x7b' ≠ some 'u' by decide

end ModulePack.Json
