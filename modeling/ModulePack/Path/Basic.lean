import ModulePack.Text.Basic

/-!
# Paths

A path is a text whose parts stand between slashes. `components` reads it, `render` writes
components, and `normalize` leaves out what has no effect: `.` anywhere, and `..` together with the
name before it.
-/

namespace ModulePack

/-- A path as it is written. -/
abbrev Path := Text

namespace Path

inductive Component where
  /-- The slash in front of an absolute path. -/
  | root
  /-- A single dot. -/
  | here
  /-- Two dots. -/
  | up
  | name (text : Text)
  deriving DecidableEq

namespace Component

/-- What a piece between slashes means; nothing at all where it is empty or a dot. -/
def ofPiece? : Text → Option Component
  | [] => none
  | ['.'] => none
  | ['.', '.'] => some .up
  | text => some (.name text)

def text : Component → Text
  | .root => ['/']
  | .here => ['.']
  | .up => ['.', '.']
  | .name text => text

end Component

/-- The pieces between slashes, empty ones included. -/
def pieces : Path → List Text
  | [] => [[]]
  | c :: p =>
    match pieces p with
    | [] => [[c]]
    | piece :: rest => if c = '/' then [] :: piece :: rest else (c :: piece) :: rest

def isAbsolute (p : Path) : Bool := p.head? == some '/'

/-- The components in order. A dot counts only in front of a relative path. -/
def components (p : Path) : List Component :=
  match pieces p with
  | [] => []
  | [] :: rest => if p = [] then [] else .root :: rest.filterMap Component.ofPiece?
  | ['.'] :: rest => .here :: rest.filterMap Component.ofPiece?
  | first :: rest => (first :: rest).filterMap Component.ofPiece?

/-- Components written as a path. -/
def render : List Component → Path
  | .root :: rest => '/' :: Text.join ['/'] (rest.map Component.text)
  | cs => Text.join ['/'] (cs.map Component.text)

/-- `segment` seen from `base`: an absolute segment stands for itself. -/
def append (base segment : Path) : Path :=
  if isAbsolute segment || base.isEmpty then segment
  else if base.getLast? = some '/' then base ++ segment
  else base ++ '/' :: segment

/-- The effect of components that have been read: how many steps up, then which names (the last one
first). In an absolute path there are no steps up. -/
structure Place where
  ups : Nat
  names : List Text
  deriving DecidableEq

/-- The place one component further. `..` undoes a name where there is one; at the root it has no
effect. -/
def Place.step (absolute : Bool) (spot : Place) : Component → Place
  | .root | .here => spot
  | .name text => { spot with names := text :: spot.names }
  | .up =>
    match spot.names with
    | _ :: names => { spot with names }
    | [] => if absolute then spot else { spot with ups := spot.ups + 1 }

/-- The components of a place. -/
def Place.components (absolute : Bool) (spot : Place) : List Component :=
  (if absolute then [.root] else []) ++ List.replicate spot.ups .up
    ++ spot.names.reverse.map .name

/-- The place that a path leads to. -/
def place (p : Path) : Place := (components p).foldl (Place.step (isAbsolute p)) ⟨0, []⟩

/-- The path without `.` and `..`, except for `..` in front of a relative path. The file system is
not asked, so that a name before `..` may be a link. -/
def normalize (p : Path) : Path := render ((place p).components (isAbsolute p))

/-- The segments taken in turn from `base`, then normalized; empty ones have no effect. -/
def resolve (base : Path) (segments : List Path) : Path :=
  normalize ((segments.filter (!·.isEmpty)).foldl append base)

/-- The path without its last component; none for the root and for the empty path. -/
def parent? (p : Path) : Option Path :=
  match (components p).reverse with
  | [] | .root :: _ => none
  | _ :: before => some (render before.reverse)

/-- Backslashes turned into slashes. -/
def forwardSlashes (p : Path) : Text := p.map fun c => if c = '\\' then '/' else c

theorem pieces_ne_nil (p : Path) : pieces p ≠ [] := by
  cases p with
  | nil => simp [pieces]
  | cons c p =>
    unfold pieces
    split
    · simp
    · split <;> simp

theorem not_mem_of_mem_pieces {p : Path} {piece : Text} (h : piece ∈ pieces p) : '/' ∉ piece := by
  induction p generalizing piece with
  | nil => simp_all [pieces]
  | cons c p ih =>
    unfold pieces at h
    split at h
    · rename_i hp
      exact absurd hp (pieces_ne_nil p)
    · rename_i first rest hp
      rw [hp] at ih
      split at h
      · rcases List.mem_cons.1 h with rfl | h
        · simp
        · exact ih h
      · rename_i hc
        rcases List.mem_cons.1 h with rfl | h
        · simp only [List.mem_cons, not_or]
          exact ⟨Ne.symm hc, ih (List.mem_cons_self ..)⟩
        · exact ih (List.mem_cons_of_mem _ h)

end Path

end ModulePack
