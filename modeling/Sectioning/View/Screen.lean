/-
A view drawn on a screen.

Three boxes stand below each other: the way to the selection, the outline, and a
line of help or the message of the view.  The first and the last have one line
inside.  The outline has the rest, and is scrolled by no more than it takes to
show the selection.
-/
import Sectioning.Outline.Drawing
import Sectioning.Update.Frequency
import Sectioning.View.Cell
import Sectioning.View.State

namespace Sectioning
namespace Screen

/-! ## Boxes -/

def plainText (s : String) : Span :=
  ⟨s, .plain⟩

def border (c : Char) : Cell :=
  .glyph [c] .plain

/-- The line of a box that has its title. -/
def topEdge (title : String) (width : Nat) : List Cell :=
  border '┌' ::
    (Row.fill (width - 2) (border '─') (Row.ofSpan (width - 2) (plainText title)) ++ [border '┐'])

def bottomEdge (width : Nat) : List Cell :=
  border '└' :: (List.replicate (width - 2) (border '─') ++ [border '┘'])

def sides (width : Nat) (inside : List Cell) : List Cell :=
  border '│' :: (Row.fill (width - 2) .blank inside ++ [border '│'])

/-- A box of the given size around some rows.  A box of one row is its top edge,
and a box of none is nothing. -/
def box (title : String) (width height : Nat) (rows : List (List Cell)) : List (List Cell) :=
  match height with
  | 0 => []
  | 1 => [topEdge title width]
  | inner + 2 =>
    topEdge title width ::
      ((List.range inner).map (fun n => sides width (rows[n]?.getD [])) ++ [bottomEdge width])

/-- The first line of a text. -/
def firstLine (s : String) : String :=
  match Text.split '\n' s.toList with
  | line :: _ :: _ =>
    String.ofList (if line.getLast? = some '\r' then line.dropLast else line)
  | _ => s

/-- The inside of a box that shows a text. -/
def paragraph (width : Nat) (s : String) : List (List Cell) :=
  [Row.ofText (width - 2) (firstLine s)]

/-! ## The outline -/

/-- Parts, chapters and sections stand out. -/
def levelStyle (level : Nat) : Style :=
  match level with
  | 1 => { color := some .magenta, bold := true }
  | 2 => { color := some .cyan, bold := true }
  | 3 => { color := some .blue }
  | _ => .plain

/-- The mark that shows whether a heading is folded. -/
def foldMark (v : View) (i : Nat) : String :=
  if v.outline.hasChildren i then if v.folds.contains i then "▸ " else "▾ " else "  "

/-- The line of a heading.  Titles from included documents are in italics. -/
def headingSpans (v : View) (i : Nat) (h : Heading) : List Span :=
  let style := levelStyle h.level
  [⟨v.outline.lead i, { color := some .darkGray }⟩, plainText (foldMark v i),
    ⟨h.title, if h.source = v.root then style else { style with italic := true }⟩]

/-- The row of a heading inside a box, reversed if it is selected. -/
def headingRow (v : View) (width : Nat) (i : Nat) : List Cell :=
  let cells := Row.fill width .blank
    (((v.outline.get? i).map fun h => Row.ofSpans width (headingSpans v i h)).getD [])
  if i = v.selected then cells.map Cell.reverse else cells

/-- The number of rows above the first one shown, so that the selected one is
among `height` rows. -/
def scroll (selected : Option Nat) (height : Nat) : Nat :=
  selected.elim 0 fun k => k + 1 - height

/-- The inside of the outline's box. -/
def outlineRows (v : View) (width height : Nat) : List (List Cell) :=
  if v.outline.isEmpty then paragraph (width + 2) "No headings found"
  else
    let shown := v.visible
    ((shown.drop (scroll (shown.idxOf? v.selected) height)).take height).map (headingRow v width)

/-! ## The whole screen -/

def help : String :=
  "↑/↓: Navigate | ←/→: Fold/Parent/Child | Shift+↑/↓: Siblings | Enter: Locate | r: Rescan | q: Quit"

/-- The rows of a screen of the given size. -/
def draw (v : View) (frequency : Frequency) (width height : Nat) : List (List Cell) :=
  let middle := height - 6
  (box "Navigation" width 3 (paragraph width (" > ".intercalate v.breadcrumb)) ++
    box ("Document Tree (" ++ frequency.label ++ ")") width middle
      (outlineRows v (width - 2) (middle - 2)) ++
    box "" width 3 (paragraph width (v.message.getD help))).map Row.send

end Screen
end Sectioning
