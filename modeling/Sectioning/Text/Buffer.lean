/-
Documents held in memory.

A buffer is the text of a document together with its lines and the offsets at
which they start.  Line ends of two characters (CR LF) become one (LF) when a
buffer is made.  The lines and their starts stand in the buffer so that they are
computed once, and the fields `lines_eq` and `starts_eq` say that they are those
of that text.

Offsets and places are turned into each other with the help of the starts alone:
the row of an offset is found among them by halving.

A source is a buffer with a reader for stretches of its text.  The reader is
kept apart because a document under edit may refuse to hand out a stretch.
-/
import Sectioning.Text.Blank
import Sectioning.Text.Octet
import Sectioning.Text.Position

namespace Sectioning

/-- The identity of a document: normally the canonical path of its file. -/
structure SourceId where
  name : String
  deriving DecidableEq, Inhabited

namespace SourceId

/-- The documents met so far, after `id` has been met. -/
def note (seen : List SourceId) (id : SourceId) : List SourceId :=
  if id ∈ seen then seen else seen ++ [id]

end SourceId

namespace Text

/-- Writes each CR LF as LF. -/
def unifyBreaks : List Char → List Char
  | [] => []
  | '\r' :: '\n' :: cs => '\n' :: unifyBreaks cs
  | c :: cs => c :: unifyBreaks cs

/-- The lines of a text without their ends.  A text that ends in a line break
has an empty last line. -/
def lines (cs : List Char) : List (List Char) :=
  split '\n' cs

/-- The offsets right behind the line breaks of a text that begins at offset
`n`. -/
def behindBreaks : Nat → List Char → List Nat
  | _, [] => []
  | n, c :: cs =>
    if c = '\n' then (n + 1) :: behindBreaks (n + 1) cs else behindBreaks (n + c.utf8Size) cs

/-- The offsets at which the lines of a text start. -/
def lineStarts (cs : List Char) : Array Nat :=
  (0 :: behindBreaks 0 cs).toArray

end Text

/-- The search for the number of entries that pass a test, where those that pass
come first.  The number lies between `base` and `base + size`. -/
def partitionFrom (xs : Array Nat) (test : Nat → Bool) (base size : Nat) : Nat :=
  if 1 < size then
    let half := size / 2
    let passes := xs[base + half]?.any test
    partitionFrom xs test (if passes then base + half else base) (size - half)
  else if xs[base]?.any test then base + 1
  else base
termination_by size

/-- The number of entries that pass a test, where those that pass come first. -/
def partitionPoint (xs : Array Nat) (test : Nat → Bool) : Nat :=
  partitionFrom xs test 0 xs.size

structure Buffer where
  id : SourceId
  text : List Char
  lines : List (List Char)
  lines_eq : lines = Text.lines text
  starts : Array Nat
  starts_eq : starts = Text.lineStarts text

namespace Buffer

/-- A buffer of `text` as it is. -/
def holding (id : SourceId) (text : List Char) : Buffer :=
  ⟨id, text, Text.lines text, rfl, Text.lineStarts text, rfl⟩

/-- A buffer of `text` with its line ends made uniform. -/
def ofText (id : SourceId) (text : List Char) : Buffer :=
  holding id (Text.unifyBreaks text)

def ofString (id : SourceId) (text : String) : Buffer :=
  ofText id text.toList

theorem id_ofString (id : SourceId) (text : String) : (ofString id text).id = id := rfl

def lineCount (b : Buffer) : Nat :=
  b.lines.length

def line? (b : Buffer) (row : Nat) : Option (List Char) :=
  b.lines[row]?

/-- The bytes of a line, none past the last line. -/
def lineLength (b : Buffer) (row : Nat) : Nat :=
  (b.line? row).elim 0 Text.byteLength

/-- The first row below `row` that holds more than blanks. -/
def nextFilledRow? (b : Buffer) (row : Nat) : Option Nat :=
  ((b.lines.drop (row + 1)).findIdx? fun l => !Text.isAllBlank l).map (row + 1 + ·)

/-- The offsets of the start and of the end of a line. -/
def lineSpan? (b : Buffer) (row : Nat) : Option (Nat × Nat) :=
  b.starts[row]?.map fun start =>
    (start, b.starts[row + 1]?.elim (Text.byteLength b.text) fun next => next - 1)

/-- The offset of a place on a line.  The end of the line counts as on it. -/
def offset? (b : Buffer) (p : Position) : Option Nat :=
  (b.lineSpan? p.row).bind fun span =>
    if span.1 + p.column ≤ span.2 then some (span.1 + p.column) else none

/-- The text of a stretch whose ends lie on lines and between characters. -/
def excerpt? (b : Buffer) (r : Range) : Option (List Char) :=
  (b.offset? r.start).bind fun start =>
    (b.offset? r.stop).bind fun stop => Text.cut? start stop b.text

/-- The place of byte `offset`: its row is the last one that starts no later. -/
def positionAt? (b : Buffer) (offset : Nat) : Option Position :=
  if Text.byteLength b.text < offset then none
  else
    let row := partitionPoint b.starts (fun start => start ≤ offset) - 1
    b.starts[row]?.map fun start => ⟨row, offset - start⟩

end Buffer

structure Source where
  buffer : Buffer
  excerpt? : Range → Option (List Char)

namespace Source

def id (s : Source) : SourceId :=
  s.buffer.id

/-- The source that reads from the buffer itself. -/
def ofBuffer (b : Buffer) : Source :=
  ⟨b, b.excerpt?⟩

/-- A source that never hands out text. -/
def withoutText (b : Buffer) : Source :=
  ⟨b, fun _ => none⟩

end Source
end Sectioning
