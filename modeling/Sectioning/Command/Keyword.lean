/-
The commands that shape an outline: seven that give headings and two that
include another document.
-/

namespace Sectioning

inductive Keyword where
  | part
  | chapter
  | section
  | subsection
  | subsubsection
  | paragraph
  | subparagraph
  | include
  | input
  deriving DecidableEq

namespace Keyword

def all : List Keyword :=
  [part, chapter, «section», subsection, subsubsection, paragraph, subparagraph, «include», input]

/-- The name after the backslash. -/
def name : Keyword → String
  | part => "part"
  | chapter => "chapter"
  | «section» => "section"
  | subsection => "subsection"
  | subsubsection => "subsubsection"
  | paragraph => "paragraph"
  | subparagraph => "subparagraph"
  | «include» => "include"
  | input => "input"

def ofName? (name : String) : Option Keyword :=
  all.find? fun k => k.name == name

/-- The depth of the headings that a command gives, from 1 for parts to 7 for
subparagraphs.  Inclusions have none. -/
def level? : Keyword → Option Nat
  | part => some 1
  | chapter => some 2
  | «section» => some 3
  | subsection => some 4
  | subsubsection => some 5
  | paragraph => some 6
  | subparagraph => some 7
  | «include» => none
  | input => none

def isInclusion (k : Keyword) : Bool :=
  k.level?.isNone

end Keyword
end Sectioning
