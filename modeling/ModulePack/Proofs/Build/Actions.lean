import ModulePack.Build.Run
import ModulePack.Proofs.Disk.Clear
import ModulePack.Proofs.Disk.Copying

/-!
# What the actions of a build do

`Spec pre action post failed`: from a progress with `pre`, the action ends with `post` if it
succeeds, and with `failed` if it does not. From an empty output directory, the actions up to the
manifest leave the disk with the files written so far and nothing else new (`Stage`), and remember
what `Plan` says. Whatever happens, nothing changes outside the output directory.
-/

namespace ModulePack

namespace Action

variable {α β : Type} {action : Action α} {next : α → Action β} {p q : Progress}
  {failure : Failure}

theorem bind_of_ok {a : α} (h : action p = .ok a q) : (action >>= next) p = next a q := by
  show EStateM.bind action next p = next a q
  unfold EStateM.bind
  rw [h]

theorem bind_of_error (h : action p = .error failure q) :
    (action >>= next) p = .error failure q := by
  show EStateM.bind action next p = .error failure q
  unfold EStateM.bind
  rw [h]

end Action

/-- A part of a build ends with `post` if it succeeds, and with `failed` if it does not. -/
def Spec {α : Type} (pre : Progress → Prop) (action : Action α) (post : α → Progress → Prop)
    (failed : Progress → Prop) : Prop :=
  ∀ p, pre p → match action p with
    | .ok a q => post a q
    | .error _ q => failed q

namespace Spec

variable {α β : Type} {pre failed failed' : Progress → Prop} {post post' : α → Progress → Prop}
  {action : Action α}

theorem mono (h : Spec pre action post failed) (hpost : ∀ a p, post a p → post' a p) :
    Spec pre action post' failed := by
  intro p hp
  have := h p hp
  split at this
  · exact hpost _ _ this
  · exact this

theorem of_ok (h : Spec pre action post failed) {p q : Progress} {a : α} (hp : pre p)
    (hok : action p = .ok a q) : post a q := by
  have := h p hp
  rwa [hok] at this

theorem mono_failed (h : Spec pre action post failed) (hfailed : ∀ p, failed p → failed' p) :
    Spec pre action post failed' := by
  intro p hp
  have := h p hp
  split at this
  · exact this
  · exact hfailed _ this

theorem forget (h : Spec pre action post failed) : Spec pre action post fun _ => True :=
  h.mono_failed fun _ _ => trivial

theorem bind {next : α → Action β} {final : β → Progress → Prop} (h : Spec pre action post failed)
    (h' : ∀ a, Spec (post a) (next a) final failed) :
    Spec pre (action >>= next) final failed := by
  intro p hp
  have hfirst := h p hp
  split at hfirst
  · rename_i a q heq
    rw [Action.bind_of_ok heq]
    exact h' a q hfirst
  · rename_i failure q heq
    rw [Action.bind_of_error heq]
    exact hfirst

theorem pure {a : α} (h : ∀ p, pre p → post a p) : Spec pre (Pure.pure a) post failed := h

theorem modify {change : Progress → Progress} {post : Unit → Progress → Prop}
    (h : ∀ p, pre p → post () (change p)) : Spec pre (modify change) post failed := h

theorem ask {path : Path} {answer : Except Fault α} (h : ∀ p, pre p → failed p) :
    Spec pre (Action.ask path answer) (fun a p => pre p ∧ answer = .ok a) failed := by
  intro p hp
  cases answer with
  | ok a => exact ⟨hp, rfl⟩
  | error fault => exact h p hp

theorem ofExcept {answer : Except Failure α} (h : ∀ p, pre p → failed p) :
    Spec pre (Action.ofExcept answer) (fun a p => pre p ∧ answer = .ok a) failed := by
  intro p hp
  cases answer with
  | ok a => exact ⟨hp, rfl⟩
  | error failure => exact h p hp

/-- What is known whatever the progress may be known beforehand. -/
theorem of_fact {fact : Prop} (h : fact → Spec pre action post failed) :
    Spec (fun p => pre p ∧ fact) action post failed := fun p hp => h hp.2 p hp.1

theorem of_exists {ι : Type} {pre : ι → Progress → Prop}
    (h : ∀ i, Spec (pre i) action post failed) :
    Spec (fun p => ∃ i, pre i p) action post failed := fun p ⟨i, hp⟩ => h i p hp

end Spec

/-! ### What a build is to write -/

/-- The sources of a build, each with its text, in the order in which they are wrapped, and the
manifest of the package. -/
structure Plan where
  sources : List (Text × Text)
  manifest : Manifest

/-- The script that a source with the given name and text becomes. -/
def script (source : Text × Text) : Text × Text :=
  (FileName.output source.1, (Wrapped.ofSource source.2).text)

/-- What is reported of a text written to the output. -/
def textArtifact (directory : Path) (file : Text × Text) : Artifact :=
  ⟨file.1, Path.append directory file.1, file.2.byteCount, hexDigest (Bytes.ofText file.2)⟩

/-- What is remembered of sources that have been wrapped. -/
def wrappedRecords (s : Settings) (sources : List (Text × Text)) : Records where
  headers := sources.map fun source => (Wrapped.ofSource source.2).header
  names := []
  manifest := none
  report :=
    { artifacts := (sources.map script).map (textArtifact s.outputPath)
      transpiled := sources.map fun source => (source.1, FileName.output source.1)
      entryHeader := none }

namespace Plan

def names (plan : Plan) : List Text := plan.sources.map Prod.fst

/-- The header of the entry. -/
def header? (plan : Plan) : Option Text :=
  (sharedHeader? (plan.sources.map fun source => (Wrapped.ofSource source.2).header)).filter (· ≠ [])

def scripts (plan : Plan) : List (Text × Text) := plan.sources.map script

def entry (plan : Plan) : Text × Text :=
  (Entry.fileName, Entry.text (plan.header?.getD []) plan.manifest.version? plan.names)

/-- The manifest of the output. -/
def package (s : Settings) (plan : Plan) : Text × Text :=
  (Manifest.fileName, Manifest.text (plan.manifest.synthesize s.name
    (plan.manifest.dependencies?.map (Dependencies.rebaseAll s.packagePath s.outputPath))))

/-- What is remembered of all sources and the manifest, with what has been written so far. -/
def records (plan : Plan) (artifacts : List Artifact) : Records where
  headers := plan.sources.map fun source => (Wrapped.ofSource source.2).header
  names := plan.names
  manifest := some plan.manifest
  report :=
    { artifacts
      transpiled := plan.sources.map fun source => (source.1, FileName.output source.1)
      entryHeader := plan.header? }

/-- The files written to the output, in order. -/
def files (s : Settings) (plan : Plan) : List (Text × Text) :=
  plan.scripts ++ [plan.entry, plan.package s]

end Plan

namespace Action

open Disk

variable {s : Settings} {F : Disk} {m : Nat} {out : Location} {files : List (Text × Text)}
  {r : Records} {sources : List (Text × Text)} {x : Text}

/-! ### Stages of a build -/

/-- The disk on which a build begins to write: the path of the output leads to the directory `out`,
which is empty. -/
structure Ready (s : Settings) (F : Disk) (m : Nat) (out : Location) : Prop where
  wf : F.WellFormed
  reaches : F.Reaches s.outputPath m out
  empty : F.NothingBelow out

/-- What an action leaves alone even if it fails. -/
def SameOutside (out : Location) (F : Disk) (q : Progress) : Prop :=
  ∀ k, isBelow out k = false → q.disk.get? k = F.get? k

/-- The given files, and nothing else, have been written to the output. -/
structure Stage (s : Settings) (F : Disk) (out : Location) (files : List (Text × Text))
    (r : Records) (q : Progress) : Prop where
  disk : q.disk = F.putFiles out files
  records : q.records = r
  allowed : ∀ file ∈ files, IsFileName file.1 ∧ Allowed (Path.append s.outputPath file.1)

theorem Stage.sameOutside {q : Progress} (h : Stage s F out files r q) : SameOutside out F q :=
  fun k hk => by
    rw [h.disk]
    refine get?_putFiles_of_ne fun file _ heq => ?_
    rw [← heq] at hk
    simp at hk

theorem Stage.adds {q : Progress} (h : Stage s F out files r q) (hF : Ready s F m out) :
    Adds (fun k node => ∃ x ∈ files.map Prod.fst, k = out ++ [x] ∧ ∃ content, node = .file content)
      F q.disk := by
  rw [h.disk]
  exact adds_putFiles hF.empty hF.wf (hF.reaches.directory hF.wf) fun file hfile =>
    (h.allowed file hfile).1

/-- Among the files of an output that was empty there are no directories and no links. -/
theorem Ready.file_of_get? (hF : Ready s F m out) {node : Node}
    (h : (F.putFiles out files).get? (out ++ [x]) = some node) : ∃ content, node = .file content := by
  rw [get?_putFiles, hF.empty _ (by simp)] at h
  split at h
  · exact ⟨_, (Option.some.inj h).symm⟩
  · cases h

/-- The next file is refused whatever it is to hold, or it is put in its place. -/
theorem Stage.writeBytes_cases {q : Progress} (h : Stage s F out files r q) (hF : Ready s F m out)
    (hx : Path.IsName x) :
    (∃ fault, ∀ content, (F.putFiles out files).writeBytes (Path.append s.outputPath x) content =
      .error fault) ∨
    IsFileName x ∧ Allowed (Path.append s.outputPath x) ∧
      ∀ content, (F.putFiles out files).writeBytes (Path.append s.outputPath x) content =
        .ok ((F.putFiles out files).put (out ++ [x]) (.file content)) := by
  have hle := (h.adds hF).le
  rw [h.disk] at hle
  have hlink : ∀ target, (F.putFiles out files).get? (out ++ [x]) ≠ some (.link target) := by
    intro target hnode
    obtain ⟨content, hfile⟩ := hF.file_of_get? hnode
    cases hfile
  exact (writeBytes_of_reaches (hF.reaches.mono (.of_le hle)) hx hlink).imp_right
    fun ⟨hname, ha, _, hput⟩ => ⟨hname, ha, hput⟩

/-! ### Single actions -/

/-- What a progress consists of, but for its log. -/
structure At (d : Disk) (r : Records) (q : Progress) : Prop where
  disk : q.disk = d
  records : q.records = r

theorem at_log (level : Level) (text : Text) {d : Disk} {failed : Progress → Prop} :
    Spec (At d r) (log level text) (fun _ => At d r) failed :=
  .modify fun _ h => ⟨h.disk, h.records⟩

theorem at_disk {d : Disk} {failed : Progress → Prop} :
    Spec (At d r) disk (fun e q => At d r q ∧ e = d) failed := fun _ h => ⟨h, h.disk⟩

theorem at_setDisk {d : Disk} (e : Disk) {failed : Progress → Prop} :
    Spec (At d r) (setDisk e) (fun _ => At e r) failed := .modify fun _ h => ⟨rfl, h.records⟩

theorem at_record (change : Records → Records) {d : Disk} {failed : Progress → Prop} :
    Spec (At d r) (record change) (fun _ => At d (change r)) failed :=
  .modify fun _ h => ⟨h.disk, congrArg change h.records⟩

theorem at_logAll (more : Log) {d : Disk} {failed : Progress → Prop} :
    Spec (At d r) (modify fun p => { p with log := p.log ++ more }) (fun _ => At d r) failed :=
  .modify fun _ h => ⟨h.disk, h.records⟩

theorem at_get {d : Disk} {failed : Progress → Prop} :
    Spec (At d r) get (fun q p => At d r p ∧ q.records = r) failed := fun _ h => ⟨h, h.records⟩

/-- A text is written under its path, and reported. -/
theorem at_writeArtifact (directory : Path) (x content : Text) {d : Disk} :
    Spec (At d r) (writeArtifact directory x content)
      (fun _ q => ∃ e, At e { r with
          report.artifacts := r.report.artifacts ++ [textArtifact directory (x, content)] } q ∧
        d.writeText (Path.append directory x) content = .ok e)
      (At d r) := by
  refine .bind at_disk fun d' => .of_fact fun hd => ?_
  rw [hd]
  refine .bind (.ask fun _ h => h) fun e => .of_fact fun hwrite => ?_
  refine .bind (at_setDisk e) fun _ => (at_record _).mono fun _ q h => ⟨e, h, hwrite⟩

theorem spec_log (level : Level) (text : Text) {failed : Progress → Prop} :
    Spec (Stage s F out files r) (log level text) (fun _ => Stage s F out files r) failed :=
  .modify fun _ h => ⟨h.disk, h.records, h.allowed⟩

theorem spec_record (change : Records → Records) {failed : Progress → Prop} :
    Spec (Stage s F out files r) (record change) (fun _ => Stage s F out files (change r)) failed :=
  .modify fun _ h => ⟨h.disk, congrArg change h.records, h.allowed⟩

theorem spec_disk {failed : Progress → Prop} :
    Spec (Stage s F out files r) disk
      (fun d q => Stage s F out files r q ∧ d = F.putFiles out files) failed :=
  fun _ h => ⟨h, h.disk⟩

theorem spec_ask {α : Type} {path : Path} {answer : Except Fault α} :
    Spec (Stage s F out files r) (ask path answer)
      (fun a q => Stage s F out files r q ∧ answer = .ok a) (SameOutside out F) :=
  .ask fun _ h => h.sameOutside

theorem spec_writeArtifact (hF : Ready s F m out) (hx : Path.IsName x) (content : Text) :
    Spec (Stage s F out files r) (writeArtifact s.outputPath x content)
      (fun _ => Stage s F out (files ++ [(x, content)])
        { r with report.artifacts := r.report.artifacts ++ [textArtifact s.outputPath (x, content)] })
      (SameOutside out F) := by
  intro p h
  refine (((at_writeArtifact s.outputPath x content).mono ?_).mono_failed ?_) p ⟨h.disk, h.records⟩
  · rintro _ q ⟨e, hq, hwrite⟩
    rcases h.writeBytes_cases hF hx with ⟨fault, hfault⟩ | ⟨hname, ha, hput⟩
    · rw [writeText, hfault] at hwrite
      cases hwrite
    · rw [writeText, hput] at hwrite
      refine ⟨?_, hq.records, fun file hfile => ?_⟩
      · rw [hq.disk, ← Except.ok.inj hwrite, putFiles_concat]
      · rcases List.mem_append.1 hfile with hfile | hfile
        · exact h.allowed file hfile
        · obtain rfl := List.mem_singleton.1 hfile
          exact ⟨hname, ha⟩
  · exact fun q hq k hk => by rw [hq.disk, ← h.disk, h.sameOutside k hk]

/-! ### Sources -/

theorem isName_output (hx : Path.IsName x) : Path.IsName (FileName.output x) := by
  unfold FileName.output
  split
  · exact hx
  · have hlong : 3 < (x ++ FileName.scriptExtension).length := by
      have := List.length_pos_of_ne_nil hx.ne_nil
      simp [FileName.scriptExtension]
      omega
    refine ⟨?_, ?_, ?_, ?_⟩
    · intro h; simp [h] at hlong
    · intro h; simp [h] at hlong
    · intro h; simp [h] at hlong
    · simp [FileName.scriptExtension, hx.no_slash]

/-- Each source has been read when those before it had been written. -/
def SourcesRead (s : Settings) (F : Disk) (out : Location) (sources : List (Text × Text)) : Prop :=
  ∀ before source after, sources = before ++ source :: after →
    (F.putFiles out (before.map script)).readText (Path.append s.sourcePath source.1) =
      .ok source.2

theorem SourcesRead.concat (h : SourcesRead s F out sources) {source : Text × Text}
    (hread : (F.putFiles out (sources.map script)).readText (Path.append s.sourcePath source.1) =
      .ok source.2) : SourcesRead s F out (sources ++ [source]) := by
  intro before other after heq
  rcases List.eq_nil_or_concat' after with rfl | ⟨after, last, rfl⟩
  · obtain ⟨rfl, h⟩ := List.append_inj' heq rfl
    obtain rfl : source = other := by simpa using h
    exact hread
  · have heq' : sources ++ [source] = (before ++ other :: after) ++ [last] := by simpa using heq
    exact h before other after (List.append_inj' heq' rfl).1

theorem spec_wrapSource (hF : Ready s F m out) (hx : Path.IsName x)
    (hread : SourcesRead s F out sources) :
    Spec (Stage s F out (sources.map script) (wrappedRecords s sources)) (wrapSource s x)
      (fun _ q => ∃ text, Stage s F out ((sources ++ [(x, text)]).map script)
          (wrappedRecords s (sources ++ [(x, text)])) q ∧
        SourcesRead s F out (sources ++ [(x, text)]))
      (SameOutside out F) := by
  refine .bind (spec_log _ _) fun _ => .bind spec_disk fun d => .of_fact fun hd => ?_
  refine .bind spec_ask fun text => .of_fact fun htext => ?_
  rw [hd] at htext
  rcases hsplit : Wrapped.split text with ⟨header, body⟩
  refine .bind (spec_log _ _) fun _ => .bind (spec_record _) fun _ => ?_
  refine .bind (spec_writeArtifact hF (isName_output hx) _) fun _ => ?_
  refine (spec_record _).mono fun _ q h => ⟨text, ?_, hread.concat htext⟩
  rw [List.map_append, List.map_singleton]
  refine ⟨h.disk, ?_, h.allowed⟩
  rw [h.records]
  simp [wrappedRecords, script, Wrapped.ofSource, hsplit]

theorem spec_wrapSources (hF : Ready s F m out) {names : List Text}
    (hnames : ∀ x ∈ names, Path.IsName x) (hread : SourcesRead s F out sources) :
    Spec (Stage s F out (sources.map script) (wrappedRecords s sources))
      (forAll (wrapSource s) names)
      (fun _ q => ∃ more, Stage s F out ((sources ++ more).map script)
          (wrappedRecords s (sources ++ more)) q ∧
        (more.map Prod.fst = names ∧ SourcesRead s F out (sources ++ more)))
      (SameOutside out F) := by
  induction names generalizing sources with
  | nil => exact .pure fun q h => ⟨[], by simpa using h, rfl, by simpa using hread⟩
  | cons x names ih =>
    refine .bind (spec_wrapSource hF (hnames x (by simp)) hread) fun _ => ?_
    refine .of_exists fun text => .of_fact fun hread' => ?_
    refine (ih (fun y hy => hnames y (by simp [hy])) hread').mono ?_
    rintro _ q ⟨more, h, hmore, hall⟩
    rw [List.append_assoc, List.singleton_append] at h hall
    exact ⟨(x, text) :: more, h, by simp [hmore], hall⟩

theorem spec_transpile (hF : Ready s F m out) :
    Spec (Stage s F out [] .empty) (transpile s)
      (fun _ q => ∃ sources, Stage s F out (sources.map script)
          { wrappedRecords s sources with names := sources.map Prod.fst } q ∧
        ((∃ l, F.find s.sourcePath = .ok (l, .directory) ∧
          sources.map Prod.fst = FileName.sort (F.names l)) ∧ SourcesRead s F out sources))
      (SameOutside out F) := by
  refine .bind (spec_log _ _) fun _ => .bind spec_disk fun d => .of_fact fun hd => ?_
  refine .bind spec_ask fun listing => .of_fact fun hlist => ?_
  rw [hd, putFiles_nil] at hlist
  obtain ⟨l, hfind, rfl⟩ := list_eq_ok_iff.1 hlist
  have hnames : ∀ x ∈ FileName.sort (F.names l), Path.IsName x := fun x hx =>
    (isFileName_of_mem_names hF.wf (FileName.mem_sort.1 hx)).toIsName
  have hnone : SourcesRead s F out [] := fun before source after heq => by simp at heq
  have hwrap := spec_wrapSources hF hnames hnone
  refine .bind hwrap fun _ => ?_
  refine .of_exists fun sources => .of_fact fun ⟨hsources, hread⟩ => ?_
  rw [List.nil_append] at hread ⊢
  refine .bind (spec_record _) fun _ => (spec_log _ _).mono ?_
  exact fun _ q h => ⟨sources, hsources ▸ h, ⟨l, hfind, hsources⟩, hread⟩

/-! ### The manifest -/

/-- The manifest is what the package's file says on the disk. -/
def ManifestOn (s : Settings) (d : Disk) (manifest : Manifest) : Prop :=
  ∃ text, d.readText (Path.append s.packagePath Manifest.fileName) = .ok text ∧
    Manifest.parse (Path.append s.packagePath Manifest.fileName) text = .ok manifest

theorem at_manifest_none {d : Disk} (hr : r.manifest = none) :
    Spec (At d r) (manifest s)
      (fun m q => At d { r with manifest := some m } q ∧ ManifestOn s d m) (At d r) := by
  refine .bind at_get fun q => .of_fact fun hq => ?_
  rw [hq, hr]
  refine .bind (at_log _ _) fun _ => .bind at_disk fun e => .of_fact fun he => ?_
  rw [he]
  refine .bind (.ask fun _ h => h) fun text => .of_fact fun htext => ?_
  refine .bind (.ofExcept fun _ h => h) fun manifest => .of_fact fun hparse => ?_
  refine .bind (at_logAll _) fun _ => .bind (at_record _) fun _ => .pure fun q h => ?_
  exact ⟨h, text, htext, hparse⟩

theorem at_manifest_some {d : Disk} {manifest : Manifest} (hr : r.manifest = some manifest)
    {failed : Progress → Prop} :
    Spec (At d r) (Action.manifest s) (fun m q => At d r q ∧ m = manifest) failed := by
  refine .bind at_get fun q => .of_fact fun hq => ?_
  rw [hq, hr]
  exact .pure fun q h => ⟨h, rfl⟩

theorem spec_logAll (more : Log) {failed : Progress → Prop} :
    Spec (Stage s F out files r) (modify fun p => { p with log := p.log ++ more })
      (fun _ => Stage s F out files r) failed :=
  .modify fun _ h => ⟨h.disk, h.records, h.allowed⟩

theorem spec_get {failed : Progress → Prop} :
    Spec (Stage s F out files r) get
      (fun q p => Stage s F out files r p ∧ q.records = r) failed :=
  fun _ h => ⟨h, h.records⟩

/-- The manifest is what the package's file says when the given files have been written. -/
def ManifestRead (s : Settings) (F : Disk) (out : Location) (files : List (Text × Text))
    (manifest : Manifest) : Prop :=
  ∃ text, (F.putFiles out files).readText (Path.append s.packagePath Manifest.fileName) =
    .ok text ∧ Manifest.parse (Path.append s.packagePath Manifest.fileName) text = .ok manifest

theorem spec_manifest_none (hr : r.manifest = none) :
    Spec (Stage s F out files r) (manifest s)
      (fun manifest q => Stage s F out files { r with manifest := some manifest } q ∧
        ManifestRead s F out files manifest)
      (SameOutside out F) := by
  intro p h
  refine (((at_manifest_none hr).mono ?_).mono_failed ?_) p ⟨h.disk, h.records⟩
  · exact fun manifest q hq => ⟨⟨hq.1.disk, hq.1.records, h.allowed⟩, hq.2⟩
  · exact fun q hq => Stage.sameOutside ⟨hq.disk, hq.records, h.allowed⟩

theorem spec_manifest_some {manifest : Manifest} (hr : r.manifest = some manifest)
    {failed : Progress → Prop} :
    Spec (Stage s F out files r) (Action.manifest s)
      (fun m q => Stage s F out files r q ∧ m = manifest) failed := fun p h =>
  ((at_manifest_some hr).mono fun _ _ hq => ⟨⟨hq.1.disk, hq.1.records, h.allowed⟩, hq.2⟩) p
    ⟨h.disk, h.records⟩

theorem isFileName_entry : IsFileName Entry.fileName := by decide

theorem isFileName_manifest : IsFileName Manifest.fileName := by decide

theorem isName_entry : Path.IsName Entry.fileName := isFileName_entry.toIsName

theorem isName_manifest : Path.IsName Manifest.fileName := isFileName_manifest.toIsName

theorem spec_generateEntry (hF : Ready s F m out) :
    Spec (Stage s F out (sources.map script)
        { wrappedRecords s sources with names := sources.map Prod.fst })
      (generateEntry s)
      (fun _ q => ∃ manifest, Stage s F out
          ((Plan.mk sources manifest).scripts ++ [(Plan.mk sources manifest).entry])
          ((Plan.mk sources manifest).records
            (((Plan.mk sources manifest).scripts ++ [(Plan.mk sources manifest).entry]).map
              (textArtifact s.outputPath))) q ∧
        ManifestRead s F out (sources.map script) manifest)
      (SameOutside out F) := by
  refine .bind (spec_log _ _) fun _ => .bind spec_get fun q => .of_fact fun hq => ?_
  refine .bind (spec_manifest_none rfl) fun manifest => .of_fact fun hmanifest => ?_
  refine .bind spec_get fun q' => .of_fact fun hq' => ?_
  rw [hq, hq']
  refine .bind (spec_writeArtifact hF isName_entry _) fun _ => ?_
  refine (spec_record _).mono fun _ q h => ⟨manifest, ?_, hmanifest⟩
  refine ⟨h.disk, ?_, h.allowed⟩
  rw [h.records]
  simp [Plan.records, Plan.header?, Plan.names, Plan.scripts, Plan.entry, wrappedRecords]

theorem spec_generateManifest (hF : Ready s F m out) (plan : Plan) :
    Spec (Stage s F out (plan.scripts ++ [plan.entry])
        (plan.records ((plan.scripts ++ [plan.entry]).map (textArtifact s.outputPath))))
      (generateManifest s)
      (fun _ => Stage s F out (plan.files s)
        (plan.records ((plan.files s).map (textArtifact s.outputPath))))
      (SameOutside out F) := by
  refine .bind (spec_log _ _) fun _ => .bind (spec_manifest_some rfl) fun manifest => ?_
  refine .of_fact fun hmanifest => ?_
  rw [hmanifest]
  refine .bind (spec_logAll _) fun _ => ?_
  refine (spec_writeArtifact hF isName_manifest _).mono fun _ q h => ?_
  have hfiles : plan.files s = plan.scripts ++ [plan.entry] ++ [plan.package s] := by
    simp [Plan.files]
  rw [hfiles]
  refine ⟨h.disk, ?_, h.allowed⟩
  rw [h.records]
  simp [Plan.records, Plan.package]

/-! ### Optional copies -/

/-- A disk that differs from the one on which the build began to write in its output alone. -/
structure Grown (s : Settings) (F : Disk) (m : Nat) (out : Location) (d : Disk) : Prop where
  wf : d.WellFormed
  reaches : d.Reaches s.outputPath m out
  same : ∀ k, isBelow out k = false → d.get? k = F.get? k
  allowed : ∀ x ∈ d.names out, Allowed (Path.append s.outputPath x)

theorem grown_putFiles (hF : Ready s F m out)
    (hfiles : ∀ file ∈ files, IsFileName file.1 ∧ Allowed (Path.append s.outputPath file.1)) :
    Grown s F m out (F.putFiles out files) := by
  have h : Stage s F out files .empty ⟨F.putFiles out files, [], .empty⟩ := ⟨rfl, rfl, hfiles⟩
  refine ⟨(h.adds hF).wf, hF.reaches.mono (.of_le (h.adds hF).le), h.sameOutside, fun x hx => ?_⟩
  rw [mem_names_putFiles hF.empty] at hx
  obtain ⟨file, hfile, rfl⟩ := List.mem_map.1 hx
  exact (hfiles file hfile).2

/-- What an optional copy has done: nothing if there is nothing to copy. -/
inductive CopiedOptional (s : Settings) (name : Text) (d : Disk) : Disk → List Artifact → Prop
  | absent (h : d.exists? (Path.append s.packagePath name) = false) : CopiedOptional s name d d []
  | copied {e : Disk} {size : Nat} {digest : Text}
      (h : d.exists? (Path.append s.packagePath name) = true)
      (hcopy : d.copy (Path.append s.packagePath name) (Path.append s.outputPath name) = (.ok size, e))
      (hdigest : e.digest (Path.append s.outputPath name) = .ok digest) :
      CopiedOptional s name d e [⟨name, Path.append s.outputPath name, size, digest⟩]

theorem Grown.of_adds {d e : Disk} (h : Grown s F m out d)
    (hadds : Adds (Under (out ++ [x])) d e)
    (hx : e.get? (out ++ [x]) ≠ none → Allowed (Path.append s.outputPath x)) :
    Grown s F m out e := by
  have hother : ∀ k, ¬out ++ [x] <+: k → e.get? k = d.get? k := fun k hk =>
    hadds.get?_eq fun _ hunder => hk hunder.1
  refine ⟨hadds.wf, h.reaches.mono (.of_le hadds.le), fun k hk => ?_, fun y hy => ?_⟩
  · rw [hother k, h.same k hk]
    rintro ⟨t, rfl⟩
    simp at hk
  · obtain ⟨node, hnode⟩ := mem_names.1 hy
    by_cases hxy : x = y
    · subst hxy
      exact hx (by simp [hnode])
    · rw [hother _ (by simpa using hxy)] at hnode
      exact h.allowed y (mem_names.2 ⟨node, hnode⟩)

namespace CopiedOptional

variable {d e : Disk} {artifacts : List Artifact}

theorem adds (h : CopiedOptional s x d e artifacts) (hd : Grown s F m out d) (hx : IsFileName x)
    (hfresh : d.get? (out ++ [x]) = none) : Adds (Under (out ++ [x])) d e := by
  cases h with
  | absent h => exact .refl hd.wf
  | copied h hcopy hdigest =>
    have := (copy_spec (Path.append s.packagePath x) hd.wf hd.reaches hx hfresh).adds
    rwa [hcopy] at this

theorem grown (h : CopiedOptional s x d e artifacts) (hd : Grown s F m out d) (hx : IsFileName x)
    (hfresh : d.get? (out ++ [x]) = none) : Grown s F m out e := by
  refine hd.of_adds (h.adds hd hx hfresh) fun hsome => ?_
  cases h with
  | absent h => exact absurd hfresh hsome
  | copied h hcopy hdigest =>
    have := (copy_spec (Path.append s.packagePath x) hd.wf hd.reaches hx hfresh).allowed
    rw [hcopy] at this
    exact this hsome

theorem cases (h : CopiedOptional s x d e artifacts) (hd : Grown s F m out d) (hx : IsFileName x)
    (hfresh : d.get? (out ++ [x]) = none) :
    (d.exists? (Path.append s.packagePath x) = false ∧ e = d ∧ artifacts = []) ∨
    ∃ l node size digest, d.find (Path.append s.packagePath x) = .ok (l, node) ∧
      (∀ target, node ≠ .link target) ∧ Copied d l e (out ++ [x]) size ∧
      e.digest (Path.append s.outputPath x) = .ok digest ∧
      artifacts = [⟨x, Path.append s.outputPath x, size, digest⟩] := by
  cases h with
  | absent h => exact .inl ⟨h, rfl, rfl⟩
  | @copied e size digest h hcopy hdigest =>
    have := (copy_spec (Path.append s.packagePath x) hd.wf hd.reaches hx hfresh).copied
    rw [hcopy] at this
    obtain ⟨l, node, hfind, hlink, hcopied⟩ := this size rfl
    exact .inr ⟨l, node, size, digest, hfind, hlink, hcopied, hdigest, rfl⟩

theorem get?_eq_of_ne (h : CopiedOptional s x d e artifacts) (hd : Grown s F m out d)
    (hx : IsFileName x) (hfresh : d.get? (out ++ [x]) = none) {y : Text} (hxy : x ≠ y)
    (r : Location) : e.get? (out ++ y :: r) = d.get? (out ++ y :: r) := by
  exact (h.adds hd hx hfresh).get?_eq fun node hunder => hxy hunder.name_eq

end CopiedOptional

/-- An optional file is copied, or there is none. -/
theorem at_copyOptional {d : Disk} :
    Spec (At d r) (copyOptional s x)
      (fun _ q => ∃ artifacts, CopiedOptional s x d q.disk artifacts ∧
        q.records = { r with report.artifacts := r.report.artifacts ++ artifacts })
      (fun q => q.disk =
        (d.copy (Path.append s.packagePath x) (Path.append s.outputPath x)).2) := by
  refine .bind (at_log _ _) fun _ => .bind at_disk fun d' => .of_fact fun hd' => ?_
  rw [hd']
  split
  · rename_i hexists
    refine .bind at_disk fun d' => .of_fact fun hd' => ?_
    rw [hd']
    rcases hcopy : d.copy (Path.append s.packagePath x) (Path.append s.outputPath x) with ⟨answer, e⟩
    refine .bind (at_setDisk e) fun _ => .bind (.ofExcept fun _ h => h.disk) fun size => ?_
    refine .of_fact fun hsize => .bind at_disk fun e' => .of_fact fun he' => ?_
    rw [he']
    refine .bind (.ofExcept fun _ h => h.disk) fun digest => .of_fact fun hdigest => ?_
    have hdone := CopiedOptional.copied hexists (hsize ▸ hcopy) hdigest
    refine .modify fun q h => ⟨[⟨x, Path.append s.outputPath x, size, digest⟩], ?_, ?_⟩
    · rw [h.disk]
      exact hdone
    · simp [h.records]
  · rename_i hexists
    refine (at_log _ _).mono fun _ q h => ⟨[], ?_, ?_⟩
    · rw [h.disk]
      exact .absent (by simpa using hexists)
    · simp [h.records]

theorem spec_copyOptional {d : Disk} (hd : Grown s F m out d) (hx : IsFileName x)
    (hfresh : d.get? (out ++ [x]) = none) :
    Spec (At d r) (copyOptional s x)
      (fun _ q => ∃ artifacts, CopiedOptional s x d q.disk artifacts ∧
        q.records = { r with report.artifacts := r.report.artifacts ++ artifacts })
      (SameOutside out F) := by
  have hcopied := copy_spec (Path.append s.packagePath x) hd.wf hd.reaches hx hfresh
  have he := hd.of_adds hcopied.adds hcopied.allowed
  exact at_copyOptional.mono_failed fun q h k hk => by rw [h, he.same k hk]

end Action

end ModulePack
