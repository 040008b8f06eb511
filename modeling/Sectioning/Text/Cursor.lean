/-
Reading a buffer octet by octet.

A cursor stands on an octet of a line and carries what lies ahead: the rest of
that line and the lines below.  Stepping past the end of a line leads to the
first octet of the next line that holds more than blanks, so line breaks and
blank lines are not seen.

`skipBlank?` passes blanks and comments.  `findClose?` finds the delimiter that
closes a group.  Both end because every step leaves fewer octets ahead
(`advance?_remaining`, `nextLine?_remaining`).
-/
import Sectioning.Text.Buffer

namespace Sectioning

structure Cursor where
  position : Position
  /-- What stands under the cursor. -/
  octet : Octet
  /-- The octets after it on its line. -/
  rest : List Octet
  /-- The lines below. -/
  below : List (List Char)

namespace Cursor

/-- The number of octets ahead. -/
def remaining (c : Cursor) : Nat :=
  c.rest.length + Text.byteLength c.below.flatten

/-- The first octet of the first line that holds more than blanks, the lines
being counted from `row`. -/
def firstFilled? : Nat → List (List Char) → Option Cursor
  | _, [] => none
  | row, [] :: ls => firstFilled? (row + 1) ls
  | row, (c :: cs) :: ls =>
    if Text.isAllBlank (c :: cs) then firstFilled? (row + 1) ls
    else some ⟨⟨row, 0⟩, .first c, Text.laterOctets c ++ Text.octets cs, ls⟩

/-- The start of the next line that holds more than blanks. -/
def nextLine? (c : Cursor) : Option Cursor :=
  firstFilled? (c.position.row + 1) c.below

/-- One octet forward. -/
def advance? (c : Cursor) : Option Cursor :=
  match c.rest with
  | o :: rest => some ⟨⟨c.position.row, c.position.column + 1⟩, o, rest, c.below⟩
  | [] => c.nextLine?

def advanceBy? : Nat → Cursor → Option Cursor
  | 0, c => some c
  | n + 1, c => c.advance?.bind (advanceBy? n)

/-! ## Steps leave fewer octets ahead -/

theorem firstFilled?_remaining {row : Nat} {ls : List (List Char)} {c : Cursor}
    (h : firstFilled? row ls = some c) : c.remaining < Text.byteLength ls.flatten := by
  fun_induction firstFilled? row ls with
  | case1 => simp at h
  | case2 row ls ih => simpa [Text.byteLength] using ih h
  | case3 row ch cs ls _ ih =>
    have := ih h
    rw [List.flatten_cons, Text.byteLength_append]
    omega
  | case4 row ch cs ls _ =>
    cases h
    have := ch.utf8Size_pos
    simp only [remaining, List.length_append, Text.length_laterOctets, Text.length_octets,
      List.flatten_cons, Text.byteLength_append, Text.byteLength]
    omega

theorem nextLine?_remaining {c d : Cursor} (h : c.nextLine? = some d) :
    d.remaining < c.remaining :=
  Nat.lt_of_lt_of_le (firstFilled?_remaining h) (Nat.le_add_left _ _)

theorem advance?_remaining {c d : Cursor} (h : c.advance? = some d) :
    d.remaining < c.remaining := by
  unfold advance? at h
  split at h
  · next o rest hr =>
    cases h
    simp [remaining, hr]
  · exact nextLine?_remaining h

theorem advanceBy?_remaining {n : Nat} {c d : Cursor} (h : advanceBy? n c = some d) :
    d.remaining + n ≤ c.remaining := by
  induction n generalizing c with
  | zero => cases h; exact Nat.le_refl _
  | succ n ih =>
    obtain ⟨e, he, hd⟩ := Option.bind_eq_some_iff.1 h
    have := advance?_remaining he
    have := ih hd
    omega

/-! ## Blanks and comments -/

/-- The first place from the cursor on that is neither blank nor in a comment.
A cursor inside a character stays where it is. -/
def skipBlank? (c : Cursor) : Option Cursor :=
  match c.octet with
  | .later => some c
  | .first ch =>
    if ch = '%' then
      match _h : c.nextLine? with
      | none => none
      | some d => skipBlank? d
    else if isBlank ch then
      match _h : advanceBy? ch.utf8Size c with
      | none => none
      | some d => skipBlank? d
    else some c
termination_by c.remaining
decreasing_by
  · exact nextLine?_remaining _h
  · have := advanceBy?_remaining _h
    have := ch.utf8Size_pos
    omega

/-! ## Groups -/

/-- The step of a reader inside a group.  A backslash takes the octet after it
along, and a comment the rest of its line. -/
def onward? (c : Cursor) : Option Cursor :=
  if c.octet = .first '\\' then c.advance?.bind advance?
  else if c.octet = .first '%' then c.nextLine?
  else c.advance?

theorem onward?_remaining {c d : Cursor} (h : c.onward? = some d) :
    d.remaining < c.remaining := by
  unfold onward? at h
  split at h
  · obtain ⟨e, he, hd⟩ := Option.bind_eq_some_iff.1 h
    exact Nat.lt_trans (advance?_remaining hd) (advance?_remaining he)
  · split at h
    · exact nextLine?_remaining h
    · exact advance?_remaining h

end Cursor

/-- The two kinds of group. -/
inductive Delimiter where
  | brace
  | bracket
  deriving DecidableEq

namespace Delimiter

def opener : Delimiter → Char
  | brace => '{'
  | bracket => '['

def closer : Delimiter → Char
  | brace => '}'
  | bracket => ']'

end Delimiter

/-- How many groups of each kind are open.  A delimiter that closes more than was opened
makes the number negative. -/
structure Counts where
  braces : Int
  brackets : Int

namespace Counts

def zero : Counts :=
  ⟨0, 0⟩

def get (n : Counts) : Delimiter → Int
  | .brace => n.braces
  | .bracket => n.brackets

/-- The open groups after reading `o`. -/
def after (n : Counts) (o : Octet) : Counts :=
  if o = .first '}' then ⟨n.braces - 1, n.brackets⟩
  else if o = .first ']' then ⟨n.braces, n.brackets - 1⟩
  else if o = .first '{' then ⟨n.braces + 1, n.brackets⟩
  else if o = .first '[' then ⟨n.braces, n.brackets + 1⟩
  else n

end Counts

namespace Cursor

/-- The delimiter that closes the group around the cursor: the first one of its kind at
which no further group of the kind is open.  `n` counts the groups that are open. -/
def findClose? (d : Delimiter) (n : Counts) (c : Cursor) : Option Cursor :=
  if c.octet = .first d.closer ∧ n.get d = 0 then some c
  else
    match _h : c.onward? with
    | none => none
    | some e => findClose? d (n.after c.octet) e
termination_by c.remaining
decreasing_by exact onward?_remaining _h

end Cursor

namespace Buffer

/-- The cursor on the octet at a place. -/
def cursorAt? (b : Buffer) (p : Position) : Option Cursor :=
  match b.lines.drop p.row with
  | [] => none
  | l :: below =>
    match (Text.octets l).drop p.column with
    | [] => none
    | o :: rest => some ⟨p, o, rest, below⟩

end Buffer
end Sectioning
