/-
Headings, and what a command in a text turns out to be.
-/
import Sectioning.Text.Buffer

namespace Sectioning

/-- A heading of an outline. -/
structure Heading where
  title : String
  level : Nat
  /-- The place of the command's backslash in its own document. -/
  anchor : Position
  source : SourceId
  deriving DecidableEq, Inhabited

/-- An inclusion: the name of the document as written, and the place of the
command's backslash. -/
structure Inclusion where
  path : String
  anchor : Position
  deriving DecidableEq

inductive Entry where
  | heading (h : Heading)
  | inclusion (i : Inclusion)
  /-- No command: escaped, commented out, incomplete or without a title. -/
  | rejected
  deriving DecidableEq

end Sectioning
