/-
An outline drawn as a tree of lines.

A heading stands behind one block of four characters for each heading above it.
The last block branches off to the heading itself.  The others are guides that
lead to a later child of one of the headings above, or blanks.  Headings without
a parent have no blocks.
-/
import Sectioning.Outline.Forest

namespace Sectioning

/-- A block of four characters in front of a heading. -/
inductive Block where
  /-- Leads past, to a later heading. -/
  | guide
  /-- Leads nowhere. -/
  | blank
  /-- Branches off, and goes on below. -/
  | branch
  /-- Branches off for the last time. -/
  | corner
  deriving DecidableEq

namespace Block

def render : Block → String
  | guide => "│   "
  | blank => "    "
  | branch => "├── "
  | corner => "└── "

end Block

namespace Outline

/-- The blocks in front of a heading.  The outermost heading above it stands at
the margin and draws none. -/
def blocks (o : Outline) (i : Nat) : List Block :=
  if (o.parent? i).isNone then []
  else
    (o.ancestors i).dropLast.reverse.map (fun a =>
      if (o.nextSibling? a).isSome then .guide else .blank) ++
      [if (o.nextSibling? i).isSome then .branch else .corner]

/-- The text in front of a heading. -/
def lead (o : Outline) (i : Nat) : String :=
  String.join ((o.blocks i).map Block.render)

def leads (o : Outline) : List String :=
  (List.range o.size).map o.lead

/-- The outline as text, a line for each heading, where a mark points to one of
them. -/
def render (o : Outline) (marked : Option Nat) : String :=
  String.join (o.headings.zipIdx.map fun h =>
    (if marked = some h.2 then "> " else "  ") ++ o.lead h.2 ++ h.1.title ++ "\n")

end Outline
end Sectioning
