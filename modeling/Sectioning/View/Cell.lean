/-
Rows of styled cells.

A visible character is written into one cell and keeps the cells after it that it
needs.  The cell after a symbol of two cells or more is not sent to the screen.
It looks blank and has no style, whatever is written into it.
-/
import Sectioning.Glyph.Cluster
import Sectioning.Glyph.Width

namespace Sectioning

inductive Color where
  | magenta
  | cyan
  | blue
  | darkGray
  deriving DecidableEq

namespace Color

def name : Color → String
  | magenta => "magenta"
  | cyan => "cyan"
  | blue => "blue"
  | darkGray => "darkgray"

end Color

structure Style where
  color : Option Color := none
  bold : Bool := false
  italic : Bool := false
  reversed : Bool := false
  deriving DecidableEq

namespace Style

def plain : Style := {}

/-- The parts of a style, joined by plus signs. -/
def name (s : Style) : String :=
  "+".intercalate
    (s.color.toList.map Color.name ++ (if s.bold then ["bold"] else []) ++
      (if s.italic then ["italic"] else []) ++ (if s.reversed then ["reversed"] else []))

end Style

inductive Cell where
  /-- A visible character, or several of which all but one take no room. -/
  | glyph (symbol : List Char) (style : Style)
  /-- A cell that is not sent to the screen. -/
  | covered
  deriving DecidableEq

namespace Cell

def blank : Cell := .glyph [' '] .plain

def symbol : Cell → List Char
  | glyph s _ => s
  | covered => [' ']

def style : Cell → Style
  | glyph _ s => s
  | covered => .plain

def reverse : Cell → Cell
  | glyph symbol style => .glyph symbol { style with reversed := true }
  | covered => .covered

/-- Writes more into a cell, in a style that then holds for all of it. -/
def append (cell : Cell) (more : List Char) (style : Style) : Cell :=
  .glyph (cell.symbol ++ more) style

end Cell

/-- A piece of text in one style. -/
structure Span where
  text : String
  style : Style

namespace Span

/-- The visible characters of a piece of text.  Line feeds are left out. -/
def clusters (s : Span) : List (List Char) :=
  (Cluster.split s.text.toList).filter (· != ['\n'])

def width (s : Span) : Nat :=
  Width.ofText s.text.toList

end Span

namespace Row

/-- A symbol in the first of the cells that it takes. -/
def spread (symbol : List Char) (style : Style) (width : Nat) : List Cell :=
  .glyph symbol style :: List.replicate (width - 1) .blank

/-! ## Pieces of text -/

/-- Writes visible characters to the right of `last`, as many as fit into `room`
cells.  Those without room go into the cell before them. -/
def writeAfter (style : Style) (last : Cell) : Nat → List (List Char) → List Cell
  | _, [] => [last]
  | room, k :: ks =>
    let width := Width.ofText k
    if width = 0 then writeAfter style (last.append k style) room ks
    else if width ≤ room then
      let cells := spread k style width
      last :: (cells.dropLast ++ writeAfter style (cells.getLastD .blank) (room - width) ks)
    else [last]

/-- Writes visible characters into `room` cells.  Those without room at the start
go into the first cell, of which `begun` has been written already. -/
def write (style : Style) (room : Nat) (begun : List Char) : List (List Char) → List Cell
  | [] => if begun = [] then [] else [.glyph begun style]
  | k :: ks =>
    let width := Width.ofText k
    if width = 0 then write style room (begun ++ k) ks
    else if width ≤ room then
      let cells := spread (begun ++ k) style width
      cells.dropLast ++ writeAfter style (cells.getLastD .blank) (room - width) ks
    else if begun = [] then [] else [.glyph begun style]

/-- A row made up to `width` cells with the cell `filler`. -/
def fill (width : Nat) (filler : Cell) (cells : List Cell) : List Cell :=
  cells ++ List.replicate (width - cells.length) filler

/-- The cells of a piece of text, cut at `room`.  A piece that takes no cell is left
out. -/
def ofSpan (room : Nat) (s : Span) : List Cell :=
  if s.width = 0 ∨ room = 0 then [] else write s.style room [] s.clusters

/-- The cells of pieces of text one after another, cut at `room`. -/
def ofSpans (room : Nat) : List Span → List Cell
  | [] => []
  | s :: rest => fill (min room s.width) .blank (ofSpan room s) ++ ofSpans (room - s.width) rest

/-! ## Plain text -/

/-- The cells of visible characters, as many as fit into `room`.  Those without
room, and those that a whole row has no room for, are left out. -/
def place (width : Nat) : Nat → List (List Char) → List Cell
  | _, [] => []
  | room, k :: ks =>
    let needed := Width.ofText k
    if needed = 0 ∨ width < needed then place width room ks
    else if needed ≤ room then spread k .plain needed ++ place width (room - needed) ks
    else []

/-- A line of plain text cut at `width` cells. -/
def ofText (width : Nat) (text : String) : List Cell :=
  place width width (Cluster.split text.toList)

/-! ## What is seen -/

/-- The cells that are sent to the screen, where `hidden` tells whether the first
one is not. -/
def sendFrom (hidden : Bool) : List Cell → List Cell
  | [] => []
  | c :: cs => (if hidden then .covered else c) :: sendFrom (1 < Width.ofText c.symbol) cs

/-- A row as it is sent to the screen. -/
def send (cells : List Cell) : List Cell :=
  sendFrom false cells

theorem length_sendFrom (hidden : Bool) (cells : List Cell) :
    (sendFrom hidden cells).length = cells.length := by
  induction cells generalizing hidden with
  | nil => rfl
  | cons c cs ih => simp [sendFrom, ih]

def text (cells : List Cell) : String :=
  String.ofList (cells.flatMap Cell.symbol)

/-- A stretch of cells with one style, from a column up to and not including
another. -/
structure Run where
  start : Nat
  stop : Nat
  style : Style

/-- Puts one more cell to the stretches before it, the last of which comes
first. -/
def addCell (runs : List Run) (cell : Nat × Style) : List Run :=
  let (column, style) := cell
  match runs with
  | [] => [⟨column, column + 1, style⟩]
  | last :: earlier =>
    if last.style = style then { last with stop := column + 1 } :: earlier
    else ⟨column, column + 1, style⟩ :: last :: earlier

/-- The stretches of cells with one style that is not plain. -/
def runs (cells : List Cell) : List Run :=
  (((cells.zipIdx.map fun c => (c.2, c.1.style)).foldl addCell []).reverse).filter
    (·.style != .plain)

end Row
end Sectioning
