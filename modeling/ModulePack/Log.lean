import ModulePack.Text.Basic

/-!
# Log lines
-/

namespace ModulePack

inductive Level where
  | error
  | warn
  | info
  | debug
  deriving DecidableEq

def Level.name : Level → Text
  | .error => "ERROR".toList
  | .warn => "WARN".toList
  | .info => "INFO".toList
  | .debug => "DEBUG".toList

structure LogLine where
  level : Level
  text : Text
  deriving DecidableEq

/-- The lines logged, in order. -/
abbrev Log := List LogLine

def LogLine.render (line : LogLine) : Text := line.level.name ++ ' ' :: line.text

end ModulePack
