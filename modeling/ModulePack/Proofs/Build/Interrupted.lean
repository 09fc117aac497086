import ModulePack.Proofs.Build.Failing
import ModulePack.Proofs.Build.Medium
import ModulePack.Proofs.Disk.PartialCopy

/-!
# Where a build is interrupted

What the actions of a build leave when they fail, on any medium. All that has been written by then is
there, and of the text that is written next there may be the first bytes (`Written`); a copy may be
half made (`PartCopied`). Nothing is new but in the output (`Within`).
-/

namespace ModulePack

namespace Action

open Disk

variable {w : Medium} {s : Settings} {d F : Disk} {m : Nat} {out : Location}
  {files sources : List (Text × Text)} {r : Records} {x : Text} {q : Progress}

/-- Nothing is new but below the output. -/
def Within (out : Location) (F D : Disk) : Prop := Adds (fun k _ => isBelow out k = true) F D

theorem Stage.within (h : Stage s F out files r q) (hF : Ready s F m out) : Within out F q.disk :=
  (h.adds hF).mono fun _ _ ⟨_, _, hk, _⟩ => hk ▸ isBelow_append_cons []

/-! ### Texts -/

/-- The given texts have been written, one after the other, and nothing of the next one, or its first
bytes if the medium has cut it off. -/
inductive Written (w : Medium) (s : Settings) (F : Disk) (out : Location)
    (files : List (Text × Text)) (next : Text × Text) : Disk → Prop
  | none : Written w s F out files next (F.putFiles out files)
  | cut {n : Nat} {fault : Fault}
      (h : w.cuts (Path.append s.outputPath next.1) (F.putFiles out files) = some (n, fault)) :
      Written w s F out files next ((F.putFiles out files).put (out ++ [next.1])
        (.file ((Bytes.ofText next.2).take n)))

theorem fails_writeArtifactOn (hF : Ready s F m out) (hx : Path.IsName x) (content : Text) :
    Fails (Stage s F out files r) (writeArtifactOn w s.outputPath x content)
      (fun failure q => Within out F q.disk ∧ Written w s F out files (x, content) q.disk ∧
        ∃ fault, failure = .io (Path.append s.outputPath x) fault) := by
  intro p h failure q herror
  rw [writeArtifactOn_eq, h.disk] at herror
  rcases w.writeText_cases (F.putFiles out files) (Path.append s.outputPath x) content with
    ⟨e, hon, -⟩ | ⟨fault, hon⟩ | ⟨n, fault, e, hcut, hon, hwrite⟩
  · rw [hon] at herror
    cases herror
  · rw [hon] at herror
    cases herror
    exact ⟨h.disk ▸ h.within hF, .none, fault, rfl⟩
  · rw [hon] at herror
    cases herror
    rcases h.writeBytes_cases hF hx with ⟨fault', hfault⟩ | ⟨hname, -, hput⟩
    · rw [hfault] at hwrite
      cases hwrite
    obtain rfl := Except.ok.inj ((hput _).symm.trans hwrite)
    have hwithin := h.within hF
    rw [h.disk] at hwithin
    have hdir := hwithin.le _ _ (hF.reaches.directory hF.wf)
    have hold : (F.putFiles out files).get? (out ++ [x]) ≠ some .directory := fun hnode => by
      obtain ⟨bytes, hfile⟩ := hF.file_of_get? hnode
      cases hfile
    exact ⟨hwithin.put_new hdir hname (hF.empty _ (by simp)) hold (by simp), .cut hcut, fault, rfl⟩

/-! ### Sources -/

/-- Some sources have been wrapped, and the next one, `x`, fails: it cannot be read, or its script not
be written. -/
inductive SourceFails (w : Medium) (s : Settings) (F : Disk) (out : Location)
    (done : List (Text × Text)) (x : Text) : Failure → Option (Text × Text) → Disk → Prop
  | unread {fault : Fault}
      (h : w.answer .read (Path.append s.sourcePath x) (F.putFiles out (done.map script))
        ((F.putFiles out (done.map script)).readText (Path.append s.sourcePath x)) = .error fault) :
      SourceFails w s F out done x (.io (Path.append s.sourcePath x) fault) none
        (F.putFiles out (done.map script))
  | unwritten {text : Text} {fault : Fault} {D : Disk}
      (hread : (F.putFiles out (done.map script)).readText (Path.append s.sourcePath x) = .ok text)
      (h : Written w s F out (done.map script) (script (x, text)) D) :
      SourceFails w s F out done x (.io (Path.append s.outputPath (FileName.output x)) fault)
        (some (script (x, text))) D

theorem fails_wrapSourceOn (hF : Ready s F m out) (hx : Path.IsName x) :
    Fails (Stage s F out (sources.map script) r) (wrapSourceOn w s x)
      (fun failure q => Within out F q.disk ∧
        ∃ next, SourceFails w s F out sources x failure next q.disk) := by
  refine .bind (spec_log _ _) (fails_log _ _) fun _ => ?_
  refine .bind spec_disk fails_disk fun d => .of_fact fun hd => ?_
  rw [hd]
  refine .bind spec_ask.forget (Fails.ask.mono ?_) fun text => .of_fact fun htext => ?_
  · rintro failure q ⟨h, fault, rfl, hfault⟩
    exact ⟨h.within hF, none, h.disk ▸ .unread hfault⟩
  rcases Wrapped.split text with ⟨header, body⟩
  refine .bind (spec_log _ _) (fails_log _ _) fun _ => ?_
  refine .bind (spec_record _) (fails_record _) fun _ => ?_
  refine .bind_never ((fails_writeArtifactOn hF (isName_output hx) _).mono ?_)
    fun _ _ => ⟨_, _, rfl⟩
  rintro failure q ⟨hwithin, hwritten, fault, rfl⟩
  exact ⟨hwithin, _, .unwritten (Medium.eq_ok_of_answer htext) hwritten⟩

/-- Where sources are wrapped in turn, some of them have been, and the next one fails. -/
theorem fails_wrapSourcesOn (hF : Ready s F m out) {names : List Text}
    (hnames : ∀ x ∈ names, Path.IsName x) (hread : SourcesRead s F out sources) :
    Fails (Stage s F out (sources.map script) (wrappedRecords s sources))
      (forAll (wrapSourceOn w s) names)
      (fun failure q => Within out F q.disk ∧ ∃ more x rest next,
        names = more.map Prod.fst ++ x :: rest ∧ SourcesRead s F out (sources ++ more) ∧
        SourceFails w s F out (sources ++ more) x failure next q.disk) := by
  induction names generalizing sources with
  | nil => exact .never fun _ => ⟨_, _, rfl⟩
  | cons x names ih =>
    have hx := hnames x (by simp)
    refine .bind ((agrees_wrapSource x).spec (spec_wrapSource hF hx hread))
      ((fails_wrapSourceOn hF hx).mono ?_) fun _ => .of_exists fun text => .of_fact fun hread' => ?_
    · rintro failure q ⟨hwithin, next, hfails⟩
      exact ⟨hwithin, [], x, names, next, rfl, by simpa using hread, by simpa using hfails⟩
    · refine (ih (fun y hy => hnames y (by simp [hy])) hread').mono ?_
      rintro failure q ⟨hwithin, more, y, rest, next, rfl, hall, hfails⟩
      rw [List.append_assoc, List.singleton_append] at hall hfails
      exact ⟨hwithin, (x, text) :: more, y, rest, next, rfl, hall, hfails⟩

/-- The sources cannot be listed, or one of them fails. -/
theorem fails_transpileOn (hF : Ready s F m out) :
    Fails (Stage s F out [] .empty) (transpileOn w s)
      (fun failure q => Within out F q.disk ∧
        ((q.disk = F ∧ ∃ fault, failure = .io s.sourcePath fault ∧
          w.answer .list s.sourcePath F (F.list s.sourcePath) = .error fault) ∨
        ∃ l done x rest next, F.find s.sourcePath = .ok (l, .directory) ∧
          FileName.sort (F.names l) = done.map Prod.fst ++ x :: rest ∧ SourcesRead s F out done ∧
          SourceFails w s F out done x failure next q.disk)) := by
  refine .bind (spec_log _ _) (fails_log _ _) fun _ => ?_
  refine .bind spec_disk fails_disk fun d => .of_fact fun hd => ?_
  rw [hd, putFiles_nil]
  refine .bind spec_ask.forget (Fails.ask.mono ?_) fun listing => .of_fact fun hlist => ?_
  · rintro failure q ⟨h, fault, rfl, hfault⟩
    exact ⟨h.within hF, .inl ⟨h.disk, fault, rfl, hfault⟩⟩
  obtain ⟨l, hfind, rfl⟩ := list_eq_ok_iff.1 (Medium.eq_ok_of_answer hlist)
  have hnames : ∀ x ∈ FileName.sort (F.names l), Path.IsName x := fun x hx =>
    (isFileName_of_mem_names hF.wf (FileName.mem_sort.1 hx)).toIsName
  have hnone : SourcesRead s F out [] := fun before source after heq => by simp at heq
  refine .bind_never ((fails_wrapSourcesOn hF hnames hnone).mono ?_) fun _ _ => ⟨_, _, rfl⟩
  rintro failure q ⟨hwithin, done, x, rest, next, hsort, hread, hfails⟩
  exact ⟨hwithin, .inr ⟨l, done, x, rest, next, hfind, hsort, hread, hfails⟩⟩

/-! ### Generated files -/

/-- No manifest is to be had from a path on a medium. -/
inductive UnusableOn (w : Medium) (d : Disk) (path : Path) : Failure → Prop
  | refused {fault : Fault} (h : w.refuses .read path d = some fault) :
      UnusableOn w d path (.io path fault)
  | unusable {failure : Failure} (h : Unusable d path failure) : UnusableOn w d path failure

theorem fails_manifestOn :
    Fails (At d r) (manifestOn w s) (fun failure q => At d r q ∧
      UnusableOn w d (Path.append s.packagePath Manifest.fileName) failure) := by
  refine .bind at_get fails_get fun q => .of_fact fun _ => ?_
  cases q.records.manifest with
  | some m => exact .never fun _ => ⟨_, _, rfl⟩
  | none =>
    refine .bind (at_log _ _) (fails_log _ _) fun _ => ?_
    refine .bind at_disk fails_disk fun e => .of_fact fun he => ?_
    rw [he]
    refine .bind (.ask fun _ _ => trivial) (Fails.ask.mono ?_) fun text => .of_fact fun htext => ?_
    · rintro _ q ⟨hq, fault, rfl, hfault⟩
      refine ⟨hq, ?_⟩
      unfold Medium.answer at hfault
      split at hfault
      · rename_i hrefused
        exact .refused (Except.error.inj hfault ▸ hrefused)
      · exact .unusable (.unread hfault)
    · refine .bind_never (Fails.ofExcept.mono ?_) fun _ _ => ⟨_, _, rfl⟩
      rintro failure q ⟨hq, hparse⟩
      exact ⟨hq, .unusable (unusable_of_parse (Medium.eq_ok_of_answer htext) hparse)⟩

theorem fails_stage_manifestOn (hF : Ready s F m out) :
    Fails (Stage s F out files r) (manifestOn w s) (fun failure q => Within out F q.disk ∧
      q.disk = F.putFiles out files ∧ UnusableOn w (F.putFiles out files)
        (Path.append s.packagePath Manifest.fileName) failure) := by
  intro p h failure q herror
  obtain ⟨hq, hunusable⟩ := fails_manifestOn p ⟨h.disk, h.records⟩ failure q herror
  have hwithin := h.within hF
  rw [h.disk, ← hq.disk] at hwithin
  exact ⟨hwithin, hq.disk, hunusable⟩

/-- There is no manifest, or the entry is not written. -/
theorem fails_generateEntryOn (hF : Ready s F m out) :
    Fails (Stage s F out (sources.map script)
        { wrappedRecords s sources with names := sources.map Prod.fst })
      (generateEntryOn w s)
      (fun failure q => Within out F q.disk ∧
        ((q.disk = F.putFiles out (sources.map script) ∧
          UnusableOn w (F.putFiles out (sources.map script))
            (Path.append s.packagePath Manifest.fileName) failure) ∨
        ∃ manifest, ManifestRead s F out (sources.map script) manifest ∧
          Written w s F out (sources.map script) (Plan.mk sources manifest).entry q.disk)) := by
  refine .bind (spec_log _ _) (fails_log _ _) fun _ => ?_
  refine .bind spec_get fails_get fun q => .of_fact fun hq => ?_
  refine .bind (agrees_manifest.spec (spec_manifest_none rfl))
    ((fails_stage_manifestOn hF).mono fun _ _ h => ⟨h.1, .inl h.2⟩) fun manifest => ?_
  refine .of_fact fun hmanifest => ?_
  refine .bind spec_get fails_get fun q' => .of_fact fun hq' => ?_
  rw [hq, hq']
  refine .bind_never ((fails_writeArtifactOn hF isName_entry _).mono ?_) fun _ _ => ⟨_, _, rfl⟩
  exact fun failure q h => ⟨h.1, .inr ⟨manifest, hmanifest, h.2.1⟩⟩

theorem fails_generateManifestOn (hF : Ready s F m out) (plan : Plan) {artifacts : List Artifact} :
    Fails (Stage s F out files (plan.records artifacts)) (generateManifestOn w s)
      (fun _ q => Within out F q.disk ∧ Written w s F out files (plan.package s) q.disk) := by
  have hknown : Spec (Stage s F out files (plan.records artifacts)) (manifest s)
      (fun m q => Stage s F out files (plan.records artifacts) q ∧ m = plan.manifest)
      fun _ => True := spec_manifest_some rfl
  refine .bind (spec_log _ _) (fails_log _ _) fun _ => ?_
  refine .bind (agrees_manifest.spec hknown)
    ((fails_stage_manifestOn hF).mono fun _ _ h => ⟨h.1, h.2.1 ▸ .none⟩) fun manifest => ?_
  refine .of_fact fun hmanifest => ?_
  rw [hmanifest]
  refine .bind (spec_logAll _) (fails_modify _) fun _ => ?_
  exact (fails_writeArtifactOn hF isName_manifest _).mono fun _ _ h => ⟨h.1, h.2.1⟩

/-! ### Copies -/

/-- What a copy has done by the time it fails: it has copied a part, if not all, of what there is. -/
def PartCopied (w : Medium) (s : Settings) (out : Location) (x : Text) (d e : Disk) : Prop :=
  ∃ l node, d.find (Path.append s.packagePath x) = .ok (l, node) ∧ PartMade w d l e (out ++ [x])

theorem PartCopied.adds {e : Disk} (h : PartCopied w s out x d e) :
    Adds (Under (out ++ [x])) d e := by
  obtain ⟨l, node, -, hmade⟩ := h
  exact hmade.adds

theorem fails_copyOptionalOn (hd : Grown s F m out d) (hx : IsFileName x)
    (hfresh : d.get? (out ++ [x]) = none) :
    Fails (At d r) (copyOptionalOn w s x) (fun _ q => PartCopied w s out x d q.disk) := by
  refine .bind (at_log _ _) (fails_log _ _) fun _ => ?_
  refine .bind at_disk fails_disk fun d' => .of_fact fun hd' => ?_
  rw [hd']
  split
  · rename_i hexists
    obtain ⟨⟨l, node⟩, hfind⟩ : ∃ entry, d.find (Path.append s.packagePath x) = .ok entry := by
      unfold Medium.exists? at hexists
      cases hlook : w.answer .look (Path.append s.packagePath x) d
        (d.find (Path.append s.packagePath x)) with
      | ok entry => exact ⟨entry, Medium.eq_ok_of_answer hlook⟩
      | error fault => rw [hlook] at hexists; cases hexists
    have hmade := w.copy_partMade hd.wf hd.reaches hx hfresh hfind
    refine .bind at_disk fails_disk fun d' => .of_fact fun hd' => ?_
    rw [hd']
    rcases hcopy : w.copy d (Path.append s.packagePath x) (Path.append s.outputPath x) with ⟨answer, e⟩
    rw [hcopy] at hmade
    -- the disk is set before the answer is looked at
    have hpart : ∀ q, At e r q → PartCopied w s out x d q.disk :=
      fun q h => h.disk ▸ ⟨l, node, hfind, hmade⟩
    refine .bind (at_setDisk e) (fails_setDisk e) fun _ => ?_
    refine .bind (.ofExcept fun _ _ => trivial) (Fails.ofExcept.mono fun _ q h => hpart q h.1) ?_
    refine fun size => .of_fact fun _ => .bind at_disk fails_disk fun e' => .of_fact fun _ => ?_
    exact .bind_never (Fails.ofExcept.mono fun _ q h => hpart q h.1) fun _ _ => ⟨_, _, rfl⟩
  · exact fails_log _ _

end Action

end ModulePack
