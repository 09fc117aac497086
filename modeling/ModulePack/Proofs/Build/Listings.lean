import ModulePack.Proofs.Build.Steps
import ModulePack.Proofs.FileName

/-!
# Listings of the sources

A file system lists the directory of the sources in an order of its own. `buildListed` is a build by
one that lists it in some order, and `Builder.build` one by a file system that lists it in order of
name. The order of a listing is lost before the first source is read (`wrapListed_congr`), so all of
them are the same (`build_listed`).
-/

namespace ModulePack

open Disk ModulePack.Action

variable {s : Settings} {d : Disk} {listing listing' : Listing} {p : Path}
  {names names' : List Text}

/-- The names in the directory that a path leads to, in the order of a listing. -/
def Disk.listIn (d : Disk) (listing : Listing) (p : Path) : Except Fault (List Text) := do
  match ← d.find p with
  | (l, .directory) => .ok (listing d l)
  | _ => .error .notADirectory

/-! ### Builds with a listing -/

namespace Action

def transpileListed (listing : Listing) (s : Settings) : Action Unit := do
  log .info "Transpiling source files ...".toList
  wrapListed s (← ask s.sourcePath ((← disk).listIn listing s.sourcePath))

/-- A step of a build whose sources are listed in the order of `listing`. -/
def takeListed (listing : Listing) (s : Settings) : Step → Action Unit
  | .transpile => transpileListed listing s
  | step => take s step

end Action

/-- Steps taken in turn, up to the first that fails, as some action takes each. -/
def takeStepsWith (take : Step → Action Unit) :
    List Step → Progress → Option (Step × Failure) × Progress
  | [], p => (none, p)
  | step :: rest, p =>
    match take step p with
    | .ok () p => takeStepsWith take rest p
    | .error failure p => (some (step, failure), p)

namespace Builder

/-- What is said of a build that has come to its end. -/
def conclude (b : Builder) : Option (Step × Failure) × Progress → Outcome
  | (some (step, failure), p) =>
    { result := .error failure
      builder := { b with state := .failed (some step), records := p.records }
      disk := p.disk
      log := p.log ++ [⟨.error, "Build failed during ".toList ++ step.name ++ " step: ".toList
        ++ failure.message⟩] }
  | (none, p) =>
    { result := .ok p.records.report
      builder := { b with state := .done, records := p.records }
      disk := p.disk
      log := p.log ++ [⟨.info, "Done.".toList⟩] }

/-- A build whose sources are listed in the order of `listing`. -/
def buildListed (b : Builder) (listing : Listing) (d : Disk) : Outcome :=
  match b.settings.validate with
  | .error _ => b.build d
  | .ok () => b.conclude
      (takeStepsWith (takeListed listing b.settings) Step.all ⟨d, announcement b.settings, .empty⟩)

end Builder

theorem takeStepsWith_take (s : Settings) (steps : List Step) (p : Progress) :
    takeStepsWith (take s) steps p = takeSteps s steps p := by
  induction steps generalizing p with
  | nil => rfl
  | cons step rest ih =>
    rw [takeStepsWith, takeSteps]
    cases take s step p with
    | ok u p => exact ih p
    | error failure p => rfl

theorem build_eq_conclude {b : Builder} (h : b.settings.validate = .ok ()) :
    b.build d = b.conclude
      (takeSteps b.settings Step.all ⟨d, announcement b.settings, .empty⟩) := by
  rw [Builder.build, h]
  rfl

theorem takeListed_names (s : Settings) : takeListed Disk.names s = take s := by
  funext step
  cases step <;> rfl

/-- A file system that lists directories in order of name. -/
theorem buildListed_names (b : Builder) (d : Disk) : b.buildListed Disk.names d = b.build d := by
  rw [Builder.buildListed, takeListed_names]
  split
  · rfl
  · rename_i h
    rw [takeStepsWith_take, build_eq_conclude h]

/-! ### The order is lost -/

theorem wrapListed_congr (h : names.Perm names') : wrapListed s names = wrapListed s names' := by
  rw [wrapListed, wrapListed, FileName.sort_eq_of_perm h]

theorem ask_listIn_congr (h : ∀ d l, (listing d l).Perm (listing' d l)) (d : Disk) :
    (ask p (d.listIn listing p) >>= wrapListed s) =
      (ask p (d.listIn listing' p) >>= wrapListed s) := by
  unfold listIn
  cases d.find p with
  | error fault => rfl
  | ok found =>
    obtain ⟨l, node⟩ := found
    cases node with
    | directory => exact wrapListed_congr (h d l)
    | file content => rfl
    | link target => rfl

theorem takeListed_congr (h : ∀ d l, (listing d l).Perm (listing' d l)) (s : Settings) :
    takeListed listing s = takeListed listing' s := by
  funext step
  cases step with
  | transpile => simp only [takeListed, transpileListed, ask_listIn_congr h]
  | _ => rfl

theorem buildListed_congr (h : ∀ d l, (listing d l).Perm (listing' d l)) (b : Builder) (d : Disk) :
    b.buildListed listing d = b.buildListed listing' d := by
  rw [Builder.buildListed, Builder.buildListed, takeListed_congr h]

/-- Alphabetical order compares the lower case forms, and then the names themselves. It is a total
order, and only one arrangement of a list of names is in it. So a build does the same, and says the
same, in whatever order its sources are listed. -/
theorem build_listed :
    (∀ a b, FileName.order a b =
        (compareOfLessAndEq a.lowercase b.lowercase).then (compareOfLessAndEq a b) ∧
      (FileName.order a b = .eq ↔ a = b) ∧
      FileName.order b a = (FileName.order a b).swap ∧
      ((FileName.order a b).isLE ∨ (FileName.order b a).isLE)) ∧
    (∀ a b c, (FileName.order a b).isLE → (FileName.order b c).isLE →
      (FileName.order a c).isLE) ∧
    (∀ names, (FileName.sort names).Perm names ∧
      (FileName.sort names).Pairwise fun a b => (FileName.order a b).isLE) ∧
    (∀ names names', names.Perm names' → FileName.sort names = FileName.sort names') ∧
    ∀ (b : Builder) (d : Disk), b.buildListed Disk.names d = b.build d ∧
      ∀ listing listing' : Listing, (∀ d l, (listing d l).Perm (listing' d l)) →
        b.buildListed listing d = b.buildListed listing' d := by
  refine ⟨fun a b => ⟨FileName.order_eq_then a b, FileName.order_eq_eq_iff,
    Std.OrientedCmp.eq_swap, ?_⟩, fun a b c => Std.TransCmp.isLE_trans,
    fun names => ⟨FileName.sort_perm names, ?_⟩, fun names names' => FileName.sort_eq_of_perm,
    fun b d => ⟨buildListed_names b d, fun listing listing' h => buildListed_congr h b d⟩⟩
  · rw [FileName.isLE_order, FileName.isLE_order]
    exact FileName.le_total a b
  · simp only [FileName.isLE_order]
    exact FileName.pairwise_sort names

/-- A package whose sources have names that differ in case only. -/
def mixedCase : Disk :=
  ⟨[(["package.json".toList], .file (Bytes.ofText "{}".toList)),
    (["src".toList], .directory),
    (["src".toList, "B.js".toList], .file []),
    (["src".toList, "a.js".toList], .file []),
    (["src".toList, "b.js".toList], .file [])], by decide⟩

theorem build_listed_mixedCase :
    FileName.sort ["b.js".toList, "a.js".toList, "B.js".toList] =
      ["a.js".toList, "B.js".toList, "b.js".toList] ∧
    rootBuilder.buildListed (fun d l => (d.names l).reverse) mixedCase =
      rootBuilder.build mixedCase ∧
    (rootBuilder.build mixedCase).result.toOption.map
      (fun report => report.transpiled.map Prod.fst) =
        some ["a.js".toList, "B.js".toList, "b.js".toList] := by
  obtain ⟨-, -, -, hsort, hbuild⟩ := build_listed
  obtain ⟨hnames, hlisted⟩ := hbuild rootBuilder mixedCase
  refine ⟨(hsort _ ["a.js".toList, "B.js".toList, "b.js".toList] (by decide)).trans ?_,
    (hlisted _ _ fun d l => List.reverse_perm (d.names l)).trans hnames, by decide +kernel⟩
  decide +kernel

end ModulePack
