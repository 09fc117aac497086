import ModulePack.Path.Basic
import ModulePack.Toml.Basic

/-!
# What can go wrong

The causes for which a build or its configuration fails, and the text shown for each.
-/

namespace ModulePack

/-- Why the file system refuses a request. -/
inductive Fault where
  | noSuchFile
  | fileExists
  | notADirectory
  | isADirectory
  | nameTooLong
  | tooManyLinks
  | invalidUtf8
  | nulInName
  /-- A copy of something that is neither a file nor a link to one. -/
  | notAFile
  /-- A fault of the device or a missing permission, in the words of the system. -/
  | other (reason : Text)
  deriving DecidableEq

def Fault.text : Fault → Text
  | .noSuchFile => "No such file or directory (os error 2)".toList
  | .fileExists => "File exists (os error 17)".toList
  | .notADirectory => "Not a directory (os error 20)".toList
  | .isADirectory => "Is a directory (os error 21)".toList
  | .nameTooLong => "File name too long (os error 36)".toList
  | .tooManyLinks => "Too many levels of symbolic links (os error 40)".toList
  | .invalidUtf8 => "stream did not contain valid UTF-8".toList
  | .nulInName => "file name contained an unexpected NUL byte".toList
  | .notAFile =>
    "the source path is neither a regular file nor a symlink to a regular file".toList
  | .other reason => reason

/-- The settings of a build. -/
inductive Setting where
  | packageName
  | packagePath
  | sourcePath
  | outputPath
  deriving DecidableEq

def Setting.name : Setting → Text
  | .packageName => "packageName".toList
  | .packagePath => "packagePath".toList
  | .sourcePath => "sourcePath".toList
  | .outputPath => "outputPath".toList

inductive Failure where
  /-- A setting was given a value that is no text. -/
  | invalidArgument (setting : Setting) (found : Toml.Kind)
  /-- A required setting is empty. -/
  | missingSetting (setting : Setting)
  | io (path : Path) (fault : Fault)
  /-- The package's manifest is no JSON. -/
  | manifestSyntax (path : Path)
  /-- The package's manifest is JSON, but no object. -/
  | manifestShape (path : Path)
  /-- The configuration file is no TOML, or has no settings where they belong. -/
  | configSyntax (path : Path)
  deriving DecidableEq

namespace Failure

def message : Failure → Text
  | .invalidArgument setting found =>
    "parameter ".toList ++ setting.name ++ " must be of type string, found ".toList ++ found.name
  | .missingSetting setting => "must set ".toList ++ setting.name
  | .io path fault => "I/O error at ".toList ++ path ++ ": ".toList ++ fault.text
  | .manifestSyntax path => "failed to parse manifest ".toList ++ path
  | .manifestShape path => "manifest ".toList ++ path ++ " must contain a JSON object".toList
  | .configSyntax path => "failed to parse config file ".toList ++ path

/-- Whether the settings are to blame, so that nothing has been tried yet. -/
def isConfiguration : Failure → Bool
  | .invalidArgument .. | .missingSetting .. => true
  | _ => false

end Failure

end ModulePack
