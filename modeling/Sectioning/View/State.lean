/-
A view of an outline: what is selected and what is folded.

The selection is an index in the outline.  A folded heading hides everything
under it, and the outline itself stays as it is.  A view may follow a cursor in
the root document: the heading around the cursor is then selected.
-/
import Sectioning.Outline.Forest
import Sectioning.View.Folds

namespace Sectioning

structure View where
  outline : Outline
  /-- The document that the cursor is in. -/
  root : SourceId
  selected : Nat
  folds : Folds
  message : Option String
  cursor : Option Position

namespace View

/-- Everything is open, and the first heading is selected. -/
def start (outline : Outline) (root : SourceId) : View :=
  ⟨outline, root, 0, .empty, none, none⟩

def current? (v : View) : Option Heading :=
  v.outline.get? v.selected

def select (v : View) (i : Nat) : View :=
  { v with selected := i }

/-! ## What is shown -/

/-- Whether a heading above `i` is folded. -/
def isHidden (v : View) (i : Nat) : Bool :=
  (v.outline.ancestors i).any v.folds.contains

/-- The headings shown, in reading order. -/
def visible (v : View) : List Nat :=
  (List.range v.outline.size).filter fun i => !v.isHidden i

/-- The titles from the outermost heading above the selection to the selection
itself. -/
def breadcrumb (v : View) : List String :=
  ((v.outline.ancestors v.selected).reverse ++ [v.selected]).filterMap fun i =>
    (v.outline.get? i).map (·.title)

/-! ## Where the selection can go -/

def nextVisible? (v : View) : Option Nat :=
  (List.range v.outline.size).find? fun i => v.selected < i && !v.isHidden i

def prevVisible? (v : View) : Option Nat :=
  (List.range v.selected).reverse.find? fun i => !v.isHidden i

def parent? (v : View) : Option Nat :=
  v.outline.parent? v.selected

def firstChild? (v : View) : Option Nat :=
  (v.outline.children v.selected).head?

def nextSibling? (v : View) : Option Nat :=
  v.outline.nextSibling? v.selected

def prevSibling? (v : View) : Option Nat :=
  v.outline.prevSibling? v.selected

def first? (v : View) : Option Nat :=
  if v.outline.isEmpty then none else some 0

/-- The last heading shown. -/
def last? (v : View) : Option Nat :=
  v.visible.getLast?

/-- Selects a heading if there is one to select. -/
def go (v : View) (target : Option Nat) : View :=
  target.elim v v.select

/-! ## Folding -/

def fold (v : View) (i : Nat) : View :=
  { v with folds := v.folds.insert i }

def unfold (v : View) (i : Nat) : View :=
  { v with folds := v.folds.erase i }

def canToggle (v : View) : Bool :=
  v.outline.hasChildren v.selected

/-- Folds or unfolds the selection, if anything is under it. -/
def toggle (v : View) : View :=
  if v.canToggle then
    if v.folds.contains v.selected then v.unfold v.selected else v.fold v.selected
  else v

/-- Folds the selection if it is open, and otherwise goes to its parent. -/
def collapseOrParent (v : View) : View :=
  if v.canToggle && !v.folds.contains v.selected then v.fold v.selected else v.go v.parent?

/-- Unfolds the selection if it is folded, and otherwise goes to its first
child. -/
def expandOrChild (v : View) : View :=
  if v.folds.contains v.selected then v.unfold v.selected else v.go v.firstChild?

/-- Selects a heading and unfolds all headings above it. -/
def reveal (v : View) (i : Nat) : View :=
  let above := v.outline.ancestors i
  { v with selected := i, folds := v.folds.filter fun j => !above.contains j }

/-! ## Following a cursor and a document -/

/-- Selects the heading around a cursor.  Before the first heading the selection
stays. -/
def follow (v : View) (cursor : Position) : View :=
  let v := { v with cursor := some cursor }
  (v.outline.headingAt? v.root cursor).elim v v.reveal

/-- Puts a new outline in place of the old one.  The selection stays at its index
as long as there is one, the folds of headings without children go, and the
cursor is followed again. -/
def replaceOutline (v : View) (o : Outline) : View :=
  let kept : View :=
    { v with
      outline := o
      selected := if o.size ≤ v.selected then o.size - 1 else v.selected
      folds := v.folds.filter fun i => decide (i < o.size) && o.hasChildren i }
  v.cursor.elim kept kept.follow

/-! ## Telling where a heading stands -/

/-- The document, line and column of a heading, counted from one. -/
def location? (v : View) (i : Nat) : Option String :=
  (v.outline.get? i).map fun h =>
    h.source.name ++ ":" ++ toString (h.anchor.row + 1) ++ ":" ++ toString (h.anchor.column + 1)

/-- Tells where the selection stands, and moves the cursor there if that is in the
root document. -/
def jump (v : View) : View :=
  match v.current? with
  | none => v
  | some h =>
    { v with
      message := v.location? v.selected
      cursor := if h.source = v.root then some h.anchor else v.cursor }

end View
end Sectioning
