/-
Places in a text.

A place is a row and a column, both counted from zero.  The column counts the
bytes of the UTF-8 form of the row, so a column can fall inside a character.
Places are ordered by row first.
-/

namespace Sectioning

structure Position where
  row : Nat
  column : Nat
  deriving DecidableEq, Inhabited

namespace Position

/-- The start of every text. -/
def start : Position := ⟨0, 0⟩

instance : LE Position :=
  ⟨fun p q => p.row < q.row ∨ p.row = q.row ∧ p.column ≤ q.column⟩

instance : LT Position :=
  ⟨fun p q => p.row < q.row ∨ p.row = q.row ∧ p.column < q.column⟩

instance (p q : Position) : Decidable (p ≤ q) :=
  inferInstanceAs (Decidable (p.row < q.row ∨ p.row = q.row ∧ p.column ≤ q.column))

instance (p q : Position) : Decidable (p < q) :=
  inferInstanceAs (Decidable (p.row < q.row ∨ p.row = q.row ∧ p.column < q.column))

theorem le_iff {p q : Position} :
    p ≤ q ↔ p.row < q.row ∨ p.row = q.row ∧ p.column ≤ q.column := Iff.rfl

theorem lt_iff {p q : Position} :
    p < q ↔ p.row < q.row ∨ p.row = q.row ∧ p.column < q.column := Iff.rfl

/-- The place after a character that stands at `p`. -/
def after (p : Position) (c : Char) : Position :=
  if c = '\n' then ⟨p.row + 1, 0⟩ else ⟨p.row, p.column + c.utf8Size⟩

/-- The place after a text that starts at `p`. -/
def afterAll (p : Position) (cs : List Char) : Position :=
  cs.foldl after p

def render (p : Position) : String :=
  toString p.row ++ ":" ++ toString p.column

end Position

/-- A stretch of text, from `start` up to and not including `stop`. -/
structure Range where
  start : Position
  stop : Position
  deriving DecidableEq

namespace Range

/-- The stretch between two places, whichever of them comes first. -/
def between (p q : Position) : Range :=
  if p ≤ q then ⟨p, q⟩ else ⟨q, p⟩

def render (r : Range) : String :=
  r.start.render ++ "-" ++ r.stop.render

end Range
end Sectioning
