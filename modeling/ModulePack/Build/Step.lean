import ModulePack.Text.Basic

/-!
# Steps and states of a build
-/

namespace ModulePack

inductive Step where
  | clean
  | prepare
  | transpile
  | generateEntry
  | generateManifest
  | copyReadme
  | copyLicense
  deriving DecidableEq

namespace Step

/-- Every step, in the order in which a build takes them. -/
def all : List Step :=
  [.clean, .prepare, .transpile, .generateEntry, .generateManifest, .copyReadme, .copyLicense]

def name : Step → Text
  | .clean => "clean".toList
  | .prepare => "prepare".toList
  | .transpile => "transpile".toList
  | .generateEntry => "generate entry".toList
  | .generateManifest => "generate manifest".toList
  | .copyReadme => "copy readme".toList
  | .copyLicense => "copy license".toList

end Step

/-- Where a builder is in its work. -/
inductive State where
  | idle
  | running (step : Step)
  | done
  /-- The last build failed at a step; at none, if the settings were refused. -/
  | failed (step : Option Step)
  deriving DecidableEq

def State.isTerminal : State → Bool
  | .done | .failed _ => true
  | .idle | .running _ => false

theorem Step.mem_all (step : Step) : step ∈ Step.all := by cases step <;> decide

end ModulePack
