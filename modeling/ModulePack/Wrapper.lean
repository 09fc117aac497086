import ModulePack.Header
import ModulePack.Text.Lines

/-!
# The universal module wrapper

A wrapped module loads both where modules are defined asynchronously and where they are required:
its body is indented between `prologue` and `epilogue`, below the copyright header of the source.
-/

namespace ModulePack

namespace Wrapper

def prologue : Text :=
  "(function(define) \x7b define(function(require, exports, module) \x7b".toList

def epilogue : Text :=
  ("\x7d); \x7d)((typeof define === \"function\") ? define : function(factory) " ++
    "\x7b factory(require, exports, module); \x7d);").toList

/-- The lines of a body as they stand in a wrapped module. -/
def bodyLines (body : Text) : List Text := (Text.trimBlank (Text.lines body)).map Text.indent

/-- The body in its wrapper, with an empty line inside either end and below a header, if any. -/
def wrap (header body : Text) : Text :=
  Text.unlines ((if header = [] then [] else [header, []]) ++
    [prologue, [], Text.unlines (bodyLines body), [], epilogue]) ++ Text.lineEnd

end Wrapper

structure Wrapped where
  text : Text
  /-- The copyright header of the source, empty if it has none. -/
  header : Text
  deriving DecidableEq

namespace Wrapped

/-- The header of a source, empty if it has none, and the source behind it. -/
def split (source : Text) : Text × Text := (Header.extract? source).getD ([], source)

/-- A source wrapped, with its header lifted out of the body. -/
def ofSource (source : Text) : Wrapped :=
  let (header, body) := split source
  ⟨Wrapper.wrap header body, header⟩

end Wrapped

/-- The header that all sources share; none where there is no source or two headers differ. -/
def sharedHeader? : (headers : List Text) → Option Text
  | [] => none
  | header :: rest => if rest.all (· == header) then some header else none

theorem sharedHeader?_eq_some_iff {headers : List Text} {header : Text} :
    sharedHeader? headers = some header ↔ headers ≠ [] ∧ ∀ h ∈ headers, h = header := by
  cases headers with
  | nil => simp [sharedHeader?]
  | cons first rest =>
    simp only [sharedHeader?, List.all_eq_true, beq_iff_eq]
    constructor
    · intro h
      split at h
      · rename_i hall
        obtain rfl : first = header := by simpa using h
        simpa using hall
      · simp at h
    · rintro ⟨-, h⟩
      have hfirst := h first (List.mem_cons_self ..)
      subst hfirst
      rw [if_pos fun x hx => h x (List.mem_cons_of_mem _ hx)]

/-- The headers of the sources that have been wrapped so far, empty for those without one. -/
structure Wrapping where
  headers : List Text
  deriving DecidableEq

namespace Wrapping

def new : Wrapping := ⟨[]⟩

/-- The next source wrapped, and its header remembered. -/
def add (w : Wrapping) (source : Text) : Wrapped × Wrapping :=
  let wrapped := Wrapped.ofSource source
  (wrapped, ⟨w.headers ++ [wrapped.header]⟩)

/-- The header that all sources so far share. -/
def shared? (w : Wrapping) : Option Text := sharedHeader? w.headers

end Wrapping

end ModulePack
