import ModulePack.Disk.Access
import ModulePack.Json.Basic

/-!
# Images of a file system

A disk as a JSON array with an object for each entry: its `path`, and its content as `text`, as
`hex` where it is no text, or the target of a `link`; a directory has its path alone.
-/

namespace ModulePack.Disk

def pathKey : Text := "path".toList
def textKey : Text := "text".toList
def hexKey : Text := "hex".toList
def linkKey : Text := "link".toList

def nodeOfImage? (fields : Json.Fields) : Option Node :=
  match fields.get? textKey, fields.get? hexKey, fields.get? linkKey with
  | some (.string text), none, none => some (.file (Bytes.ofText text))
  | none, some (.string digits), none => (Bytes.ofHex? digits).map .file
  | none, none, some (.string target) => some (.link target)
  | none, none, none => some .directory
  | _, _, _ => none

/-- One more entry of an image, with the directories above it. -/
def addImage? (d : Disk) : Json → Option Disk
  | .object fields => do
    let path ← Json.Fields.get? pathKey fields >>= Json.text?
    let node ← nodeOfImage? fields
    let d := match Path.parent? path with
      | some above => (d.makeDirectories above).2
      | none => d
    match d.locate .keep path with
    | .ok l => some (d.put l node)
    | .error _ => none
  | _ => none

def ofImage? : Json → Option Disk
  | .array items => items.foldlM addImage? Disk.empty
  | _ => none

def nodeImage : Node → Json.Fields
  | .directory => []
  | .link target => [(linkKey, .string target)]
  | .file content =>
    match Bytes.toText? content with
    | some text => [(textKey, .string text)]
    | none => [(hexKey, .string content.hex)]

def image (d : Disk) : Json :=
  .array (d.entries.map fun (l, node) => .object ((pathKey, .string l.path) :: nodeImage node))

end ModulePack.Disk
