/-
The text before a reader as one row of octets.

A reader does not see line breaks and blank lines.  What it does see from a place on is a
list of octets with their places, the stream from that place: the rest of the row, and
then the rows below that hold more than blanks (`Buffer.stream`).  Every step of a cursor
is a step on that list.  One octet forward takes the first spot off (`stream?_advance?`),
and the next line begins behind the spots of the row (`stream?_nextLine?`).  So all that
is read from a cursor depends on its stream alone.
-/
import Sectioning.Proofs.Cursors

namespace Sectioning

/-- An octet and its place. -/
structure Spot where
  place : Position
  octet : Octet
  deriving DecidableEq

namespace Text

/-- The spots of a row, from a column on. -/
def spots (row : Nat) : Nat → List Octet → List Spot
  | _, [] => []
  | column, o :: os => ⟨⟨row, column⟩, o⟩ :: spots row (column + 1) os

/-- The spots of lines that are counted from `row`, without those of blank lines. -/
def filledSpots : Nat → List (List Char) → List Spot
  | _, [] => []
  | row, l :: ls =>
    (if isAllBlank l then [] else spots row 0 (octets l)) ++ filledSpots (row + 1) ls

theorem spots_append (row column : Nat) (os os' : List Octet) :
    spots row column (os ++ os') =
      spots row column os ++ spots row (column + os.length) os' := by
  induction os generalizing column with
  | nil => rfl
  | cons o os ih =>
    rw [List.cons_append, spots, spots, ih, List.length_cons, List.cons_append, Nat.add_right_comm,
      Nat.add_assoc column]

theorem row_of_mem_spots {row column : Nat} {os : List Octet} {x : Spot}
    (h : x ∈ spots row column os) : x.place.row = row := by
  induction os generalizing column with
  | nil => cases h
  | cons o os ih =>
    rw [spots, List.mem_cons] at h
    rcases h with rfl | h
    · rfl
    · exact ih h

theorem column_of_mem_spots {row column : Nat} {os : List Octet} {x : Spot}
    (h : x ∈ spots row column os) : column ≤ x.place.column := by
  induction os generalizing column with
  | nil => cases h
  | cons o os ih =>
    rw [spots, List.mem_cons] at h
    rcases h with rfl | h
    · exact Nat.le_refl _
    · exact Nat.le_of_succ_le (ih h)

theorem row_of_mem_filledSpots {row : Nat} {ls : List (List Char)} {x : Spot}
    (h : x ∈ filledSpots row ls) : row ≤ x.place.row := by
  induction ls generalizing row with
  | nil => cases h
  | cons l ls ih =>
    rw [filledSpots, List.mem_append] at h
    rcases h with h | h
    · split at h
      · cases h
      · rw [row_of_mem_spots h]
    · exact Nat.le_of_succ_le (ih h)

theorem filledSpots_append (row : Nat) (ls ls' : List (List Char)) :
    filledSpots row (ls ++ ls') = filledSpots row ls ++ filledSpots (row + ls.length) ls' := by
  induction ls generalizing row with
  | nil => rfl
  | cons l ls ih =>
    rw [List.cons_append, filledSpots, filledSpots, ih, List.length_cons, List.append_assoc,
      Nat.add_right_comm, Nat.add_assoc row]

end Text

/-- What a reader sees from a place on: the rest of its row, and below it the rows that
hold more than blanks. -/
def Buffer.stream (b : Buffer) (p : Position) : List Spot :=
  match b.lines.drop p.row with
  | [] => []
  | l :: below =>
    Text.spots p.row p.column ((Text.octets l).drop p.column) ++
      Text.filledSpots (p.row + 1) below

namespace Cursor

def spot (c : Cursor) : Spot :=
  ⟨c.position, c.octet⟩

/-- The spots behind the cursor. -/
def ahead (c : Cursor) : List Spot :=
  Text.spots c.position.row (c.position.column + 1) c.rest ++
    Text.filledSpots (c.position.row + 1) c.below

/-- The spot under the cursor and those behind it. -/
def stream (c : Cursor) : List Spot :=
  c.spot :: c.ahead

/-- What a cursor sees that may be past the end. -/
def stream? : Option Cursor → List Spot
  | none => []
  | some c => c.stream

variable {b : Buffer} {p : Position} {c d : Cursor}

theorem stream_of_cursorAt? (h : b.cursorAt? p = some c) : c.stream = b.stream p := by
  obtain ⟨rfl, l, hl, ho⟩ := Buffer.cursorAt?_eq_some_iff.1 h
  rw [Buffer.stream, hl]
  simp only [ho, Text.spots]
  rfl

theorem exists_cursorAt? {x : Spot} {xs : List Spot} (h : b.stream p = x :: xs)
    (hp : x.place = p) : ∃ c, b.cursorAt? p = some c := by
  rw [Buffer.stream] at h
  rw [Buffer.cursorAt?]
  cases hl : b.lines.drop p.row with
  | nil =>
    rw [hl] at h
    cases h
  | cons l below =>
    rw [hl] at h
    cases ho : (Text.octets l).drop p.column with
    | nil =>
      -- the stream would begin on a row below
      simp only [ho, Text.spots, List.nil_append] at h
      have hrow := Text.row_of_mem_filledSpots (h ▸ List.mem_cons_self)
      rw [hp] at hrow
      omega
    | cons o rest =>
      simp only [ho]
      exact ⟨_, rfl⟩

/-! ## Steps -/

theorem stream?_firstFilled? (row : Nat) (ls : List (List Char)) :
    stream? (firstFilled? row ls) = Text.filledSpots row ls := by
  fun_induction firstFilled? row ls with
  | case1 => rfl
  | case2 row ls ih => exact ih
  | case3 row ch cs ls hblank ih =>
    rw [Text.filledSpots, if_pos hblank, List.nil_append]
    exact ih
  | case4 row ch cs ls hblank =>
    rw [Text.filledSpots, if_neg hblank]
    rfl

theorem stream?_advance? (c : Cursor) : stream? c.advance? = c.ahead := by
  unfold advance? ahead
  split
  · next o rest hr => rw [hr]; rfl
  · next hr =>
    rw [hr]
    exact stream?_firstFilled? _ _

theorem ahead_of_advance? (h : c.advance? = some d) : c.ahead = d.stream := by
  rw [← stream?_advance?, h]
  rfl

/-- The next line begins with the first spot that is on another row. -/
theorem stream?_nextLine? (c : Cursor) :
    stream? c.nextLine? = c.ahead.dropWhile fun x => x.place.row == c.position.row := by
  have hrow : ∀ x ∈ Text.spots c.position.row (c.position.column + 1) c.rest,
      (x.place.row == c.position.row) = true := by
    intro x hx
    rw [Text.row_of_mem_spots hx, beq_self_eq_true]
  rw [nextLine?, stream?_firstFilled?, ahead, List.dropWhile_append_of_pos hrow]
  cases hbelow : Text.filledSpots (c.position.row + 1) c.below with
  | nil => rfl
  | cons x xs =>
    have hx : c.position.row + 1 ≤ x.place.row :=
      Text.row_of_mem_filledSpots (hbelow ▸ List.mem_cons_self)
    rw [List.dropWhile_cons_of_neg]
    rw [beq_iff_eq]
    omega

theorem position_lt_of_mem_ahead {x : Spot} (h : x ∈ c.ahead) : c.position < x.place := by
  rw [ahead, List.mem_append] at h
  rw [Position.lt_iff]
  rcases h with h | h
  · have hcolumn := Text.column_of_mem_spots h
    exact Or.inr ⟨(Text.row_of_mem_spots h).symm, by omega⟩
  · exact Or.inl (Text.row_of_mem_filledSpots h)

theorem row_le_of_advance? (h : c.advance? = some d) : c.position.row ≤ d.position.row := by
  have hmem : d.spot ∈ c.ahead := by
    rw [ahead_of_advance? h]
    exact List.mem_cons_self
  have hlt := position_lt_of_mem_ahead hmem
  rw [Position.lt_iff] at hlt
  show c.position.row ≤ d.spot.place.row
  omega

theorem row_lt_of_nextLine? (h : c.nextLine? = some d) : c.position.row < d.position.row := by
  have hmem : d.spot ∈ Text.filledSpots (c.position.row + 1) c.below := by
    rw [← stream?_firstFilled?, ← nextLine?, h]
    exact List.mem_cons_self
  exact Text.row_of_mem_filledSpots hmem

end Cursor
end Sectioning
