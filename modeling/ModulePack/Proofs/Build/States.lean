import ModulePack.Proofs.Build.Causes
import ModulePack.Proofs.Build.Sessions
import ModulePack.Proofs.Settings

/-!
# The state of a builder

A build stops at the first of its steps that fails (`FirstFailing`), unless its settings are
refused, which is the case if and only if one that is required is empty. The state of a builder
tells which of these has become of its last build, and nothing that is done with it between builds
makes a difference (`Session.state_run`).
-/

namespace ModulePack

variable {s : Settings} {d : Disk} {b : Builder} {p q : Progress} {step : Step} {steps : List Step}
  {failure : Failure}

/-! ### The first step that fails -/

/-- The steps taken in turn all succeed. -/
inductive Succeeds (s : Settings) : List Step → Progress → Progress → Prop
  | nil {p : Progress} : Succeeds s [] p p
  | cons {step : Step} {steps : List Step} {p q r : Progress} (h : Action.take s step p = .ok () q)
      (h' : Succeeds s steps q r) : Succeeds s (step :: steps) p r

@[simp] theorem succeeds_nil_iff : Succeeds s [] p q ↔ p = q :=
  ⟨fun h => by cases h; rfl, fun h => h ▸ .nil⟩

@[simp] theorem succeeds_cons_iff : Succeeds s (step :: steps) p q ↔
    ∃ r, Action.take s step p = .ok () r ∧ Succeeds s steps r q :=
  ⟨fun h => by cases h with | cons h h' => exact ⟨_, h, h'⟩, fun ⟨_, h, h'⟩ => .cons h h'⟩

theorem takeSteps_cons_of_ok (h : Action.take s step p = .ok () q) :
    takeSteps s (step :: steps) p = takeSteps s steps q := by
  rw [takeSteps, h]

theorem takeSteps_cons_of_error (h : Action.take s step p = .error failure q) :
    takeSteps s (step :: steps) p = (some (step, failure), q) := by
  rw [takeSteps, h]

theorem Succeeds.takeSteps_append {before : List Step} (h : Succeeds s before p q)
    (after : List Step) : takeSteps s (before ++ after) p = takeSteps s after q := by
  induction h with
  | nil => rfl
  | cons h _ ih => rw [List.cons_append, takeSteps_cons_of_ok h, ih]

theorem takeSteps_eq_none_iff : takeSteps s steps p = (none, q) ↔ Succeeds s steps p q := by
  constructor
  · intro h
    induction steps generalizing p with
    | nil =>
      cases h
      exact .nil
    | cons step steps ih =>
      cases hstep : Action.take s step p with
      | ok u p' =>
        rw [takeSteps_cons_of_ok hstep] at h
        exact .cons hstep (ih h)
      | error failure p' =>
        rw [takeSteps_cons_of_error hstep] at h
        cases h
  · intro h
    simpa [takeSteps] using h.takeSteps_append []

theorem takeSteps_eq_some_iff : takeSteps s steps p = (some (step, failure), q) ↔
    ∃ before after p', steps = before ++ step :: after ∧ Succeeds s before p p' ∧
      Action.take s step p' = .error failure q := by
  constructor
  · intro h
    induction steps generalizing p with
    | nil => cases h
    | cons first steps ih =>
      cases hstep : Action.take s first p with
      | ok u p' =>
        rw [takeSteps_cons_of_ok hstep] at h
        obtain ⟨before, after, p'', rfl, hbefore, herror⟩ := ih h
        exact ⟨first :: before, after, p'', rfl, .cons hstep hbefore, herror⟩
      | error failure' p' =>
        rw [takeSteps_cons_of_error hstep] at h
        cases h
        exact ⟨[], steps, p, rfl, .nil, hstep⟩
  · rintro ⟨before, after, p', rfl, hbefore, herror⟩
    rw [hbefore.takeSteps_append, takeSteps_cons_of_error herror]

/-- The steps that a build takes before a given one. -/
def Step.before (step : Step) : List Step := Step.all.takeWhile (· ≠ step)

theorem Step.all_eq (step : Step) : ∃ after, Step.all = step.before ++ step :: after := by
  cases step <;> exact ⟨_, rfl⟩

theorem Step.eq_before {before after : List Step} (h : Step.all = before ++ step :: after) :
    before = step.before := by
  have hnot : step ∉ before := by
    intro hmem
    have hnodup : (before ++ step :: after).Nodup := h ▸ (by decide : Step.all.Nodup)
    exact List.disjoint_of_nodup_append hnodup hmem (by simp)
  rw [Step.before, h, List.takeWhile_append_of_pos fun other hother => by
    simpa using fun heq : other = step => hnot (heq ▸ hother)]
  simp

/-- Where a build begins. -/
def start (s : Settings) (d : Disk) : Progress := ⟨d, announcement s, .empty⟩

/-- The step is the first of all steps to fail. -/
def FirstFailing (s : Settings) (d : Disk) (step : Step) (failure : Failure) : Prop :=
  ∃ p q, Succeeds s step.before (start s d) p ∧ Action.take s step p = .error failure q

theorem firstFailing_iff : FirstFailing s d step failure ↔
    ∃ q, takeSteps s Step.all (start s d) = (some (step, failure), q) := by
  constructor
  · rintro ⟨p, q, hbefore, herror⟩
    obtain ⟨after, hall⟩ := step.all_eq
    exact ⟨q, takeSteps_eq_some_iff.2 ⟨step.before, after, p, hall, hbefore, herror⟩⟩
  · rintro ⟨q, h⟩
    obtain ⟨before, after, p, hall, hbefore, herror⟩ := takeSteps_eq_some_iff.1 h
    exact ⟨p, q, Step.eq_before hall ▸ hbefore, herror⟩

theorem FirstFailing.canFail (h : FirstFailing s d step failure) : CanFail s step failure := by
  obtain ⟨p, q, -, herror⟩ := h
  exact fails_take step p trivial failure q herror

/-! ### How a build ends -/

theorem build_of_missing {setting : Setting} (h : b.settings.IsFirstMissing setting) :
    (b.build d).builder.state = .failed none ∧
      (b.build d).result = .error (.missingSetting setting) ∧ (b.build d).disk = d := by
  have hv := Settings.validate_eq_error_iff.2 ⟨setting, h, rfl⟩
  simp only [Builder.build, hv, and_self]

theorem build_of_firstFailing (hv : b.settings.validate = .ok ())
    (h : FirstFailing b.settings d step failure) :
    (b.build d).builder.state = .failed (some step) ∧ (b.build d).result = .error failure := by
  obtain ⟨q, hsteps⟩ := firstFailing_iff.1 h
  rw [start] at hsteps
  simp only [Builder.build, hv, hsteps, and_self]

theorem build_of_succeeds (hv : b.settings.validate = .ok ())
    (h : Succeeds b.settings Step.all (start b.settings d) q) :
    (b.build d).builder.state = .done ∧ (b.build d).result = .ok q.records.report := by
  have hsteps := takeSteps_eq_none_iff.2 h
  rw [start] at hsteps
  simp only [Builder.build, hv, hsteps, and_self]

/-- The three ways in which a build ends. -/
theorem build_cases (b : Builder) (d : Disk) :
    (∃ setting, b.settings.IsFirstMissing setting) ∨
    b.settings.validate = .ok () ∧ ((∃ step failure, FirstFailing b.settings d step failure) ∨
      ∃ q, Succeeds b.settings Step.all (start b.settings d) q) := by
  cases hv : b.settings.validate with
  | error failure =>
    obtain ⟨setting, hmissing, -⟩ := Settings.validate_eq_error_iff.1 hv
    exact .inl ⟨setting, hmissing⟩
  | ok u =>
    rcases hsteps : takeSteps b.settings Step.all (start b.settings d) with ⟨_ | ⟨step, failure⟩, q⟩
    · exact .inr ⟨rfl, .inr ⟨q, takeSteps_eq_none_iff.1 hsteps⟩⟩
    · exact .inr ⟨rfl, .inl ⟨step, failure, firstFailing_iff.2 ⟨q, hsteps⟩⟩⟩

/-- The states that a builder is in while steps are taken, and the one that it is left in. -/
def statesOf (s : Settings) : List Step → Progress → List State
  | [], _ => [.done]
  | step :: rest, p =>
    .running step ::
      match Action.take s step p with
      | .ok () p => statesOf s rest p
      | .error _ _ => [.failed (some step)]

/-- The states that a builder goes through in a build. -/
def Builder.states (b : Builder) (d : Disk) : List State :=
  match b.settings.validate with
  | .error _ => [.failed none]
  | .ok () => statesOf b.settings Step.all (start b.settings d)

theorem statesOf_cons_of_ok (h : Action.take s step p = .ok () q) :
    statesOf s (step :: steps) p = .running step :: statesOf s steps q := by
  rw [statesOf, h]

theorem statesOf_of_succeeds (h : Succeeds s steps p q) :
    statesOf s steps p = steps.map .running ++ [.done] := by
  induction h with
  | nil => rfl
  | cons h _ ih => rw [statesOf_cons_of_ok h, ih, List.map_cons, List.cons_append]

theorem statesOf_of_error {before after : List Step} {p' : Progress} (h : Succeeds s before p p')
    (herror : Action.take s step p' = .error failure q) :
    statesOf s (before ++ step :: after) p =
      (before ++ [step]).map .running ++ [.failed (some step)] := by
  induction h with
  | nil =>
    rw [List.nil_append, statesOf, herror]
    rfl
  | cons h _ ih =>
    rw [List.cons_append, statesOf_cons_of_ok h, ih herror]
    rfl

/-- What the state of a builder says of its last build, which the builder `b` began on the disk
`d`. -/
structure Describes (state : State) (b : Builder) (d : Disk) : Prop where
  /-- It is the last one that the build went through, after those of the steps taken. -/
  last : ∃ taken, taken <+: Step.all ∧ b.states d = taken.map .running ++ [state]
  terminal : state.isTerminal = true
  done : state = .done ↔ ∃ report, (b.build d).result = .ok report
  refused : state = .failed none ↔
    ∃ failure, (b.build d).result = .error failure ∧ failure.isConfiguration = true
  unset : state = .failed none ↔ ∃ setting ∈ Settings.required, b.settings.get setting = []
  missing : ∀ setting, b.settings.IsFirstMissing setting →
    (b.build d).result = .error (.missingSetting setting) ∧ (b.build d).disk = d
  failed : ∀ step, state = .failed (some step) ↔
    (∀ setting ∈ Settings.required, b.settings.get setting ≠ []) ∧
      ∃ failure, FirstFailing b.settings d step failure ∧ (b.build d).result = .error failure

namespace Describes

variable {setting : Setting}

theorem of_missing (h : b.settings.IsFirstMissing setting) : Describes (.failed none) b d := by
  obtain ⟨-, hresult, -⟩ := build_of_missing (d := d) h
  have hv := Settings.validate_eq_error_iff.2 ⟨setting, h, rfl⟩
  obtain ⟨before, after, hrequired, hempty, -⟩ := h
  have hmem : setting ∈ Settings.required := by simp [hrequired]
  refine ⟨⟨[], List.nil_prefix, by rw [Builder.states, hv]; rfl⟩, rfl, ?_, ?_, ?_, ?_, ?_⟩
  · simp [hresult]
  · simp [hresult, Failure.isConfiguration]
  · exact iff_of_true rfl ⟨setting, hmem, hempty⟩
  · exact fun other hother => (build_of_missing hother).2
  · intro step
    simp only [State.failed.injEq, reduceCtorEq, false_iff, not_and]
    exact fun hset => absurd hempty (hset setting hmem)

theorem of_firstFailing (hv : b.settings.validate = .ok ())
    (h : FirstFailing b.settings d step failure) : Describes (.failed (some step)) b d := by
  obtain ⟨hstate, hresult⟩ := build_of_firstFailing hv h
  have hset := Settings.validate_eq_ok_iff.1 hv
  refine ⟨?_, rfl, ?_, ?_, ?_,
    fun other hother => absurd hother (Settings.not_isFirstMissing hv other), ?_⟩
  · obtain ⟨p, q, hbefore, herror⟩ := h
    obtain ⟨after, hall⟩ := step.all_eq
    refine ⟨step.before ++ [step], ⟨after, by simp [hall]⟩, ?_⟩
    rw [Builder.states, hv]
    dsimp only
    rw [hall, statesOf_of_error hbefore herror]
  · simp [hresult]
  · simp [hresult, h.canFail.not_isConfiguration]
  · simpa using hset
  · intro other
    constructor
    · intro heq
      cases heq
      exact ⟨hset, failure, h, hresult⟩
    · rintro ⟨-, failure', hother, -⟩
      rw [← hstate, (build_of_firstFailing hv hother).1]

theorem of_succeeds (hv : b.settings.validate = .ok ())
    (h : Succeeds b.settings Step.all (start b.settings d) q) : Describes .done b d := by
  obtain ⟨-, hresult⟩ := build_of_succeeds hv h
  have hset := Settings.validate_eq_ok_iff.1 hv
  refine ⟨?_, rfl, ?_, ?_, ?_,
    fun other hother => absurd hother (Settings.not_isFirstMissing hv other), ?_⟩
  · refine ⟨Step.all, List.prefix_refl _, ?_⟩
    rw [Builder.states, hv]
    exact statesOf_of_succeeds h
  · simp [hresult]
  · simp [hresult]
  · simpa using hset
  · simp [hresult]

end Describes

theorem describes_build (b : Builder) (d : Disk) : Describes (b.build d).builder.state b d := by
  rcases build_cases b d with ⟨setting, hmissing⟩ | ⟨hv, ⟨step, failure, hfirst⟩ | ⟨q, hall⟩⟩
  · rw [(build_of_missing hmissing).1]
    exact .of_missing hmissing
  · rw [(build_of_firstFailing hv hfirst).1]
    exact .of_firstFailing hv hfirst
  · rw [(build_of_succeeds hv hall).1]
    exact .of_succeeds hv hall

/-! ### Sessions -/

namespace Session

variable {session : Session} {events : List Event} {event : Event}

theorem run_append (session : Session) (events more : List Event) :
    session.run (events ++ more) = (session.run events).run more := by
  induction events generalizing session with
  | nil => rfl
  | cons event events ih => exact ih _

theorem state_take (h : event ≠ .build) :
    (session.take event).2.builder.state = session.builder.state := by
  cases event with
  | setValue setting value =>
    unfold take
    dsimp only
    split <;> rfl
  | build => exact absurd rfl h
  | _ => rfl

theorem state_run_of_not_mem (h : Event.build ∉ events) :
    (session.run events).builder.state = session.builder.state := by
  induction events generalizing session with
  | nil => rfl
  | cons event events ih =>
    rw [List.mem_cons, not_or] at h
    rw [run, ih h.2, state_take (Ne.symm h.1)]

theorem state_run_of_eq {before after : List Event} (h : events = before ++ .build :: after)
    (hafter : Event.build ∉ after) : (session.run events).builder.state =
      ((session.run before).builder.build (session.run before).disk).builder.state := by
  rw [h, run_append, run, state_run_of_not_mem hafter]
  rfl

/-- Whatever is done with a new builder, its state is idle until the first build, never that of a
running step, and from then on tells how the last build has ended. -/
theorem state_run (settings : Settings) (d : Disk) (past : List Event) :
    let state := (run ⟨.new settings, d⟩ past).builder.state
    (state = .idle ↔ Event.build ∉ past) ∧ (∀ step, state ≠ .running step) ∧
      ∀ before after, past = before ++ .build :: after → Event.build ∉ after →
        let last := run ⟨.new settings, d⟩ before
        Describes state last.builder last.disk := by
  intro state
  have hlast : ∀ before after, past = before ++ .build :: after → Event.build ∉ after →
      Describes state (run ⟨.new settings, d⟩ before).builder
        (run ⟨.new settings, d⟩ before).disk := fun before after hpast hafter => by
    rw [show state = _ from state_run_of_eq hpast hafter]
    exact describes_build _ _
  by_cases h : Event.build ∈ past
  · obtain ⟨after, before, hpast, hafter⟩ := List.eq_append_cons_of_mem (List.mem_reverse.2 h)
    have hterminal := (hlast before.reverse after.reverse
      (List.reverse_injective (by simp [hpast])) (by simpa using hafter)).terminal
    refine ⟨iff_of_false ?_ (not_not_intro h), ?_, hlast⟩
    · intro hidle
      rw [hidle] at hterminal
      cases hterminal
    · intro step hrunning
      rw [hrunning] at hterminal
      cases hterminal
  · have hidle : state = .idle := state_run_of_not_mem h
    exact ⟨iff_of_true hidle h, fun step => by simp [hidle], hlast⟩

end Session

end ModulePack
