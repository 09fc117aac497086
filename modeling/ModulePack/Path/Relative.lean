import ModulePack.Path.Basic

/-!
# Relative paths

How one place is reached from another: the components that both share are left out, each further one
of the start costs a step up, and the rest of the target follows.
-/

namespace ModulePack.Path

/-- The way from the second list of components to the first; `apart` once they have differed. No
answer where the start goes up past the point where they part. -/
def wayTo : (apart : Bool) → (target start : List Component) → Option (List Component)
  | _, target, [] => some target
  | _, [], _ :: start => (wayTo true [] start).map (.up :: ·)
  | apart, a :: target, b :: start =>
    if !apart && a = b then wayTo false target start
    else if b = .here then (wayTo true target start).map (a :: ·)
    else if b = .up then none
    else some (.up :: start.map (fun _ => .up) ++ a :: target)

/-- The path that leads from `start` to `target`. An absolute target is its own answer for a
relative start; the other way round there is none. -/
def relative? (start target : Path) : Option Path :=
  if isAbsolute start = isAbsolute target then
    (wayTo false (components target) (components start)).map render
  else if isAbsolute target then some target
  else none

end ModulePack.Path
