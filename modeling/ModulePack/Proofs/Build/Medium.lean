import ModulePack.Proofs.Build.Listings
import ModulePack.Proofs.Disk.Medium

/-!
# Builds on a medium

`buildOn` is a build whose disk is kept on a medium, which may give out at any time. On a sound one it
is `Builder.build` (`buildOn_sound`). On any other a part of a build that succeeds does what it does
on a sound one (`Agrees`). An optional file is the one exception: if it cannot be looked up, it counts
as missing (`CopiedOn.unseen`).
-/

namespace ModulePack

open Disk ModulePack.Action

namespace Action

/-! ### Actions on a medium -/

def writeArtifactOn (w : Medium) (directory : Path) (name content : Text) : Action Unit := do
  let path := Path.append directory name
  let (answer, d) := w.writeText (← disk) path content
  setDisk d
  ask path answer
  addArtifact ⟨name, path, content.byteCount, hexDigest (Bytes.ofText content)⟩

def cleanOn (w : Medium) (s : Settings) : Action Unit := do
  log .debug ("Cleaning ".toList ++ s.outputPath)
  let (answer, d) := w.clear (← disk) s.outputPath
  setDisk d
  ofExcept answer

def prepareOn (w : Medium) (s : Settings) : Action Unit := do
  let (answer, d) := w.makeDirectories (← disk) s.outputPath
  setDisk d
  ofExcept answer

def wrapSourceOn (w : Medium) (s : Settings) (name : Text) : Action Unit := do
  let output := FileName.output name
  log .info ("    ".toList ++ name ++ " -> ".toList ++ output)
  let path := Path.append s.sourcePath name
  let d ← disk
  let source ← ask path (w.answer .read path d (d.readText path))
  let (header, body) := Wrapped.split source
  log .debug ("Wrapping ".toList ++ Text.ofNat body.byteCount ++ " bytes (header: ".toList
    ++ (if header = [] then "false)".toList else "true)".toList))
  record fun r => { r with headers := r.headers ++ [header] }
  writeArtifactOn w s.outputPath output (Wrapped.ofSource source).text
  record fun r => { r with report.transpiled := r.report.transpiled ++ [(name, output)] }

def transpileOn (w : Medium) (s : Settings) : Action Unit := do
  log .info "Transpiling source files ...".toList
  let d ← disk
  let names := FileName.sort (← ask s.sourcePath (w.answer .list s.sourcePath d (d.list s.sourcePath)))
  forAll (wrapSourceOn w s) names
  record fun r => { r with names }
  log .debug ("Transpiled ".toList ++ Text.ofNat names.length ++ " file(s)".toList)

def manifestOn (w : Medium) (s : Settings) : Action Manifest := do
  match (← get).records.manifest with
  | some m => return m
  | none =>
    let path := Path.append s.packagePath Manifest.fileName
    log .debug ("Loading manifest ".toList ++ path)
    let d ← disk
    let text ← ask path (w.answer .read path d (d.readText path))
    let m ← ofExcept (Manifest.parse path text)
    modify fun p => { p with log := p.log ++ m.warnings }
    record fun r => { r with manifest := some m }
    return m

def generateEntryOn (w : Medium) (s : Settings) : Action Unit := do
  log .info ("Creating ".toList ++ Entry.fileName)
  let header := (sharedHeader? (← get).records.headers).filter (· ≠ [])
  let m ← manifestOn w s
  writeArtifactOn w s.outputPath Entry.fileName
    (Entry.text (header.getD []) m.version? (← get).records.names)
  record fun r => { r with report.entryHeader := header }

def generateManifestOn (w : Medium) (s : Settings) : Action Unit := do
  log .info ("Creating ".toList ++ Manifest.fileName)
  let m ← manifestOn w s
  let source := s.packagePath
  let target := s.outputPath
  modify fun p => { p with
    log := p.log ++ (m.dependencies?.map (Dependencies.rebaseLog source target)).getD [] }
  let dependencies := m.dependencies?.map (Dependencies.rebaseAll source target)
  writeArtifactOn w target Manifest.fileName (Manifest.text (m.synthesize s.name dependencies))

def copyOptionalOn (w : Medium) (s : Settings) (name : Text) : Action Unit := do
  log .info ("Copying ".toList ++ name)
  let source := Path.append s.packagePath name
  if w.exists? (← disk) source then
    let target := Path.append s.outputPath name
    let (answer, d) := w.copy (← disk) source target
    setDisk d
    let size ← ofExcept answer
    let digest ← ofExcept (w.digest (← disk) target)
    addArtifact ⟨name, target, size, digest⟩
  else
    log .debug ("No ".toList ++ name ++ " at ".toList ++ source ++ ", skipping".toList)

/-- A step of a build whose disk is kept on a medium. -/
def takeOn (w : Medium) (s : Settings) : Step → Action Unit
  | .clean => cleanOn w s
  | .prepare => prepareOn w s
  | .transpile => transpileOn w s
  | .generateEntry => generateEntryOn w s
  | .generateManifest => generateManifestOn w s
  | .copyReadme => copyOptionalOn w s readmeName
  | .copyLicense => copyOptionalOn w s licenseName

end Action

/-- A build whose disk is kept on a medium. -/
def Builder.buildOn (b : Builder) (w : Medium) (d : Disk) : Outcome :=
  match b.settings.validate with
  | .error _ => b.build d
  | .ok () => b.conclude
      (takeStepsWith (takeOn w b.settings) Step.all ⟨d, announcement b.settings, .empty⟩)

variable {α β : Type} {w : Medium} {s : Settings} {d e : Disk} {x : Text} {p q : Progress}
  {r : Records}

theorem writeArtifactOn_eq (directory : Path) (x content : Text) (p : Progress) :
    writeArtifactOn w directory x content p =
      match w.writeText p.disk (Path.append directory x) content with
      | (.ok (), e) => addArtifact (textArtifact directory (x, content)) { p with disk := e }
      | (.error fault, e) => .error (.io (Path.append directory x) fault) { p with disk := e } := by
  unfold writeArtifactOn
  rw [bind_of_ok (show disk p = .ok p.disk p from rfl)]
  rcases w.writeText p.disk (Path.append directory x) content with ⟨answer, e⟩
  dsimp only
  rw [bind_of_ok (show setDisk e p = .ok () { p with disk := e } from rfl)]
  cases answer <;> rfl

theorem writeArtifact_eq (directory : Path) (x content : Text) (p : Progress) :
    writeArtifact directory x content p =
      match p.disk.writeText (Path.append directory x) content with
      | .ok e => addArtifact (textArtifact directory (x, content)) { p with disk := e }
      | .error fault => .error (.io (Path.append directory x) fault) p := by
  unfold writeArtifact
  rw [bind_of_ok (show disk p = .ok p.disk p from rfl)]
  cases p.disk.writeText (Path.append directory x) content <;> rfl

/-! ### A sound medium -/

theorem writeArtifactOn_sound (directory : Path) (x content : Text) :
    writeArtifactOn .sound directory x content = writeArtifact directory x content := by
  funext p
  rw [writeArtifactOn_eq, writeArtifact_eq, Medium.writeText]
  cases p.disk.writeText (Path.append directory x) content <;> rfl

theorem prepareOn_sound (s : Settings) : prepareOn .sound s = prepare s := by
  funext p
  unfold prepareOn prepare
  rw [bind_of_ok (show disk p = .ok p.disk p from rfl),
    bind_of_ok (show disk p = .ok p.disk p from rfl)]
  rw [Medium.makeDirectories]
  rcases p.disk.makeDirectories s.outputPath with ⟨answer, e⟩
  cases answer <;> rfl

theorem wrapSourceOn_sound (s : Settings) : wrapSourceOn .sound s = wrapSource s := by
  funext x
  simp only [wrapSourceOn, writeArtifactOn_sound]
  rfl

theorem manifestOn_sound (s : Settings) : manifestOn .sound s = manifest s := rfl

theorem copyOptionalOn_sound (s : Settings) (x : Text) :
    copyOptionalOn .sound s x = copyOptional s x := by
  simp only [copyOptionalOn, Medium.copy_sound, Medium.digest_sound]
  rfl

theorem takeOn_sound (s : Settings) : takeOn .sound s = take s := by
  funext step
  cases step with
  | clean => rfl
  | prepare => exact prepareOn_sound s
  | transpile =>
    simp only [takeOn, transpileOn, wrapSourceOn_sound]
    rfl
  | generateEntry =>
    simp only [takeOn, generateEntryOn, manifestOn_sound, writeArtifactOn_sound]
    rfl
  | generateManifest =>
    simp only [takeOn, generateManifestOn, manifestOn_sound, writeArtifactOn_sound]
    rfl
  | copyReadme => exact copyOptionalOn_sound s readmeName
  | copyLicense => exact copyOptionalOn_sound s licenseName

theorem buildOn_sound (b : Builder) (d : Disk) : b.buildOn .sound d = b.build d := by
  rw [Builder.buildOn, takeOn_sound]
  split
  · rfl
  · rename_i h
    rw [takeStepsWith_take, build_eq_conclude h]

/-! ### What succeeds -/

/-- Whenever the first action succeeds, so does the second, in the same way. -/
def Agrees (on plain : Action α) : Prop := ∀ p a q, on p = .ok a q → plain p = .ok a q

namespace Agrees

variable {on plain : Action α} {onNext plainNext : α → Action β}

theorem refl (action : Action α) : Agrees action action := fun _ _ _ h => h

theorem bind (h : Agrees on plain) (h' : ∀ a, Agrees (onNext a) (plainNext a)) :
    Agrees (on >>= onNext) (plain >>= plainNext) := by
  intro p b q hok
  cases hon : on p with
  | ok a p' =>
    rw [bind_of_ok hon] at hok
    rw [bind_of_ok (h p a p' hon)]
    exact h' a p' b q hok
  | error failure p' =>
    rw [bind_of_error hon] at hok
    cases hok

theorem spec {pre failed : Progress → Prop} {post : α → Progress → Prop} (h : Agrees on plain)
    (hplain : Spec pre plain post failed) : Spec pre on post fun _ => True := by
  intro p hp
  split
  · rename_i a q hon
    exact hplain.of_ok hp (h p a q hon)
  · trivial

theorem ask {request : Request} {path : Path} {a : Except Fault α} :
    Agrees (Action.ask path (w.answer request path d a)) (Action.ask path a) := by
  intro p value q hok
  cases hanswer : w.answer request path d a with
  | ok value' => rwa [Medium.eq_ok_of_answer hanswer, ← hanswer]
  | error fault =>
    rw [hanswer] at hok
    cases hok

theorem forAll {ι : Type} {on plain : ι → Action Unit} (h : ∀ i, Agrees (on i) (plain i))
    (list : List ι) : Agrees (Action.forAll on list) (Action.forAll plain list) := by
  induction list with
  | nil => exact .refl _
  | cons i list ih => exact .bind (h i) fun _ => ih

end Agrees

theorem agrees_writeArtifact (directory : Path) (x content : Text) :
    Agrees (writeArtifactOn w directory x content) (writeArtifact directory x content) := by
  intro p a q hok
  rw [writeArtifactOn_eq] at hok
  rw [writeArtifact_eq]
  rcases w.writeText_cases p.disk (Path.append directory x) content with
    ⟨e, hon, hwrite⟩ | ⟨fault, hon⟩ | ⟨n, fault, e, -, hon, -⟩
  · rw [hon] at hok
    rwa [hwrite]
  · rw [hon] at hok
    cases hok
  · rw [hon] at hok
    cases hok

theorem agrees_clean : Agrees (cleanOn w s) (clean s) := by
  refine .bind (.refl _) fun _ => .bind (.refl _) fun d => ?_
  rcases w.clear_cases d s.outputPath with heq | ⟨failure, e, heq⟩
  · rw [heq]
    exact .refl _
  · rw [heq]
    intro p a q hok
    cases hok

theorem agrees_prepare : Agrees (prepareOn w s) (prepare s) := by
  refine .bind (.refl _) fun d => ?_
  rcases w.makeDirectories_cases d s.outputPath with heq | ⟨failure, e, heq⟩
  · rw [heq]
    generalize d.makeDirectories s.outputPath = made
    obtain ⟨answer, e⟩ := made
    cases answer <;> exact .refl _
  · rw [heq]
    intro p a q hok
    cases hok

theorem agrees_wrapSource (x : Text) : Agrees (wrapSourceOn w s x) (wrapSource s x) := by
  refine .bind (.refl _) fun _ => .bind (.refl _) fun d => .bind .ask fun text => ?_
  rcases Wrapped.split text with ⟨header, body⟩
  refine .bind (.refl _) fun _ => .bind (.refl _) fun _ => ?_
  exact .bind (agrees_writeArtifact _ _ _) fun _ => .refl _

theorem agrees_transpile : Agrees (transpileOn w s) (transpile s) := by
  refine .bind (.refl _) fun _ => .bind (.refl _) fun d => .bind .ask fun listing => ?_
  exact .bind (.forAll agrees_wrapSource _) fun _ => .refl _

theorem agrees_manifest : Agrees (manifestOn w s) (manifest s) := by
  refine .bind (.refl _) fun q => ?_
  cases q.records.manifest with
  | some m => exact .refl _
  | none => exact .bind (.refl _) fun _ => .bind (.refl _) fun d => .bind .ask fun text => .refl _

theorem agrees_generateEntry : Agrees (generateEntryOn w s) (generateEntry s) := by
  refine .bind (.refl _) fun _ => .bind (.refl _) fun q => .bind agrees_manifest fun m => ?_
  exact .bind (.refl _) fun _ => .bind (agrees_writeArtifact _ _ _) fun _ => .refl _

theorem agrees_generateManifest : Agrees (generateManifestOn w s) (generateManifest s) := by
  refine .bind (.refl _) fun _ => .bind agrees_manifest fun m => ?_
  exact .bind (.refl _) fun _ => agrees_writeArtifact _ _ _

/-! ### Optional copies -/

/-- What an optional copy has done: nothing if there is nothing to be seen. -/
inductive CopiedOn (w : Medium) (s : Settings) (name : Text) (d : Disk) :
    Disk → List Artifact → Prop
  | unseen (h : w.exists? d (Path.append s.packagePath name) = false) : CopiedOn w s name d d []
  | seen {e : Disk} {artifacts : List Artifact} (h : CopiedOptional s name d e artifacts) :
      CopiedOn w s name d e artifacts

theorem at_copyOptionalOn :
    Spec (At d r) (copyOptionalOn w s x)
      (fun _ q => ∃ artifacts, CopiedOn w s x d q.disk artifacts ∧
        q.records = { r with report.artifacts := r.report.artifacts ++ artifacts })
      fun _ => True := by
  refine .bind (at_log _ _) fun _ => .bind at_disk fun d' => .of_fact fun hd' => ?_
  rw [hd']
  split
  · rename_i hexists
    refine .bind at_disk fun d' => .of_fact fun hd' => ?_
    rw [hd']
    rcases hcopy : w.copy d (Path.append s.packagePath x) (Path.append s.outputPath x) with ⟨answer, e⟩
    refine .bind (at_setDisk e) fun _ => .bind (.ofExcept fun _ _ => trivial) fun size => ?_
    refine .of_fact fun hsize => .bind at_disk fun e' => .of_fact fun he' => ?_
    rw [he']
    refine .bind (.ofExcept fun _ _ => trivial) fun digest => .of_fact fun hdigest => ?_
    have hseen : d.exists? (Path.append s.packagePath x) = true := by
      unfold Medium.exists? Medium.answer at hexists
      split at hexists
      · cases hexists
      · exact hexists
    have hdone := CopiedOptional.copied hseen (Medium.copy_of_ok (hsize ▸ hcopy))
      (Medium.digest_of_ok hdigest)
    refine .modify fun q h => ⟨[⟨x, Path.append s.outputPath x, size, digest⟩], ?_, ?_⟩
    · rw [h.disk]
      exact .seen hdone
    · simp [h.records]
  · rename_i hexists
    refine (at_log _ _).mono fun _ q h => ⟨[], ?_, ?_⟩
    · rw [h.disk]
      exact .unseen (by simpa using hexists)
    · simp [h.records]

end ModulePack
