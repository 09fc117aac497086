import ModulePack.Build.Run

/-!
# Builders in use

A session is a builder together with the file system it works on. Between builds the settings and
the file system may change at will. What can be seen of a session, now and later, depends on the
settings, the state and the disk alone (`seen_congr`), not on what builds before have left in the
records of the builder: a builder that has been used is as good as a new one (`build_reused`).
-/

namespace ModulePack

/-- What is done with a builder, or with the file system while it rests. -/
inductive Event where
  | set (value : Text) (setting : Setting)
  | setValue (setting : Setting) (value : Option Toml.Value)
  | apply (file : Settings.File)
  | replace (settings : Settings)
  | change (d : Disk)
  | build

inductive Answer where
  | done
  | configured (result : Except Failure Unit)
  | built (result : Except Failure Report) (log : Log)

structure Session where
  builder : Builder
  disk : Disk

namespace Session

/-- All that can be seen of a session; the records of the builder cannot. -/
structure View where
  settings : Settings
  state : State
  disk : Disk

def view (s : Session) : View := ⟨s.builder.settings, s.builder.state, s.disk⟩

def configure (s : Session) (settings : Settings) : Session :=
  { s with builder.settings := settings }

def take (s : Session) : Event → Answer × Session
  | .set value setting => (.done, s.configure (s.builder.settings.set value setting))
  | .setValue setting value =>
    match s.builder.settings.setValue setting value with
    | .ok settings => (.configured (.ok ()), s.configure settings)
    | .error failure => (.configured (.error failure), s)
  | .apply file =>
    let (settings, result) := s.builder.settings.apply file
    (.configured result, s.configure settings)
  | .replace settings => (.done, s.configure settings)
  | .change d => (.done, { s with disk := d })
  | .build =>
    let outcome := s.builder.build s.disk
    (.built outcome.result outcome.log, ⟨outcome.builder, outcome.disk⟩)

def run (s : Session) : List Event → Session
  | [] => s
  | event :: events => (s.take event).2.run events

/-- What is seen after each event in turn. -/
def seen (s : Session) : List Event → List (Answer × View)
  | [] => []
  | event :: events =>
    ((s.take event).1, (s.take event).2.view) :: (s.take event).2.seen events

variable {s s' : Session} {b b' : Builder} {d : Disk}

/-! ### Builds with the same settings -/

/-- Where the settings are accepted, a build takes nothing else from its builder, and all that the
builder keeps afterwards is of this build. -/
theorem build_eq_of_accepted (h : b.settings = b'.settings) (hv : b.settings.validate = .ok ())
    (d : Disk) : b.build d = b'.build d := by
  obtain ⟨settings, state, records⟩ := b
  obtain ⟨settings', state', records'⟩ := b'
  obtain rfl : settings = settings' := h
  simp only [Builder.build, hv]

/-- A refused build keeps what the builder remembers, but does not show it. -/
theorem build_congr_settings (h : b.settings = b'.settings) (d : Disk) :
    (b.build d).result = (b'.build d).result ∧ (b.build d).log = (b'.build d).log ∧
      view ⟨(b.build d).builder, (b.build d).disk⟩ =
        view ⟨(b'.build d).builder, (b'.build d).disk⟩ := by
  cases hv : b.settings.validate with
  | ok u =>
    rw [build_eq_of_accepted h hv]
    exact ⟨rfl, rfl, rfl⟩
  | error failure =>
    have hv' : b'.settings.validate = .error failure := by rw [← h, hv]
    simp only [Builder.build, hv', view, h, and_self]

/-! ### Sessions that look the same -/

theorem take_congr (h : s.view = s'.view) (event : Event) :
    (s.take event).1 = (s'.take event).1 ∧ (s.take event).2.view = (s'.take event).2.view := by
  obtain ⟨hsettings, hstate, hdisk⟩ := View.mk.inj h
  have hconfigure (settings : Settings) :
      (s.configure settings).view = (s'.configure settings).view := by
    simp only [view, configure, hstate, hdisk]
  cases event with
  | set value setting =>
    simp only [take, hsettings]
    exact ⟨trivial, hconfigure _⟩
  | setValue setting value =>
    simp only [take, hsettings]
    split
    · exact ⟨rfl, hconfigure _⟩
    · exact ⟨rfl, h⟩
  | apply file =>
    simp only [take, hsettings]
    exact ⟨trivial, hconfigure _⟩
  | replace settings => exact ⟨rfl, hconfigure settings⟩
  | change d => simp only [take, view, hsettings, hstate, and_self]
  | build =>
    obtain ⟨hresult, hlog, hview⟩ := build_congr_settings hsettings s'.disk
    simp only [take, hdisk, hresult, hlog]
    exact ⟨trivial, hview⟩

theorem seen_congr (h : s.view = s'.view) (events : List Event) :
    s.seen events = s'.seen events := by
  induction events generalizing s s' with
  | nil => rfl
  | cons event events ih =>
    obtain ⟨hanswer, hview⟩ := take_congr h event
    rw [seen, seen, hanswer, hview, ih hview]

/-! ### Reuse -/

/-- Whatever a builder has been through, its next build is that of a new builder with its settings,
and nothing that is seen from then on tells the two apart. -/
theorem build_reused (settings : Settings) (d : Disk) (past : List Event) (F : Disk) :
    let b := (run ⟨.new settings, d⟩ past).builder
    let fresh := Builder.new b.settings
    (b.build F).result = (fresh.build F).result ∧
      (b.build F).builder.state = (fresh.build F).builder.state ∧
      (b.build F).disk = (fresh.build F).disk ∧ (b.build F).log = (fresh.build F).log ∧
      ((b.build F).builder = (fresh.build F).builder ∨
        ∃ failure, b.settings.validate = .error failure) ∧
      ∀ future, seen ⟨b, F⟩ (.build :: future) = seen ⟨fresh, F⟩ (.build :: future) := by
  intro b fresh
  have hsame : b.settings = fresh.settings := rfl
  obtain ⟨hresult, hlog, hview⟩ := build_congr_settings hsame F
  obtain ⟨-, hstate, hdisk⟩ := View.mk.inj hview
  refine ⟨hresult, hstate, hdisk, hlog, ?_, fun future => ?_⟩
  · cases hv : b.settings.validate with
    | ok u => exact .inl (congrArg _ (build_eq_of_accepted hsame hv F))
    | error failure => exact .inr ⟨failure, rfl⟩
  · simp only [seen, take, hresult, hlog, hview, seen_congr hview future]

end Session

end ModulePack
