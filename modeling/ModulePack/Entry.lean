import ModulePack.FileName
import ModulePack.Json.Writer
import ModulePack.Wrapper

/-!
# The entry module

The entry exports the package's version and every script under its name without `.js`.
`length_exports` counts the exports.
-/

namespace ModulePack.Entry

def fileName : Text := "index.js".toList

/-- A field of the exported object, one unit in. -/
def fieldLine (key value : Text) : Text :=
  Text.indentUnit ++ Json.stringText key ++ ": ".toList ++ value

/-- The version, `undefined` where the package has none. -/
def versionLine (version : Option Json) : Text :=
  fieldLine "version".toList ((version.map Json.compact).getD "undefined".toList)

/-- The export of the module with a given base name. -/
def exportLine (base : Text) : Text :=
  fieldLine base ("require(".toList ++ Json.stringText ("./".toList ++ base) ++ ")".toList)

/-- The lines, each but the last with a comma behind it. -/
def withCommas : List Text → List Text
  | [] => []
  | [line] => [line]
  | line :: rest => (line ++ [',']) :: withCommas rest

/-- One line for each source that is a script. -/
def exports (names : List Text) : List Text :=
  (names.filter FileName.isScript).map fun name => exportLine (FileName.stem name)

/-- The lines of the entry. -/
def bodyLines (version : Option Json) (names : List Text) : List Text :=
  ["module.exports =".toList, ['\x7b']] ++ withCommas (versionLine version :: exports names)
    ++ [['\x7d', ';']]

def body (version : Option Json) (names : List Text) : Text :=
  Text.unlines (bodyLines version names)

/-- The entry in its wrapper, below a header if that is not empty. -/
def text (header : Text) (version : Option Json) (names : List Text) : Text :=
  Wrapper.wrap header (body version names)

@[simp] theorem length_withCommas (lines : List Text) :
    (withCommas lines).length = lines.length := by
  fun_induction withCommas lines <;> simp_all

@[simp] theorem length_exports (names : List Text) :
    (exports names).length = (names.filter FileName.isScript).length := by
  simp [exports]

end ModulePack.Entry
