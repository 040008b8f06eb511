/-
Reading the argument of a command.

A command counts when its backslash is not escaped and not behind a percent
sign on its line.  After its delimiter may stand blanks and comments, then a
short title in brackets, which is passed over, then blanks and comments again,
and then the title in braces.  Whatever fails on this way makes the occurrence a
rejected one.  Only a source that does not hand out its own text is an error.
-/
import Sectioning.Command.Occurrence
import Sectioning.Error
import Sectioning.Heading.Basic
import Sectioning.Heading.Title
import Sectioning.Text.Cursor

namespace Sectioning

namespace Text

/-- Whether column `n` of a line is neither right after a backslash that escapes
it nor behind a percent sign that is not escaped. -/
def isGenuine : List Octet → Nat → Bool
  | _, 0 => true
  | [], _ + 1 => false
  | .first '\\' :: _, 1 => false
  | [.first '\\'], n + 2 => n == 0
  | .first '\\' :: _ :: os, n + 2 => isGenuine os n
  | o :: os, n + 1 => if o = .first '%' then false else isGenuine os n

end Text

namespace Cursor

/-- The first place after the short title that opens at the cursor that is
neither blank nor in a comment. -/
def skipShortTitle? (c : Cursor) : Option Cursor :=
  c.advance?.bind fun start =>
    (start.findClose? .bracket .zero).bind fun close =>
      close.advance?.bind skipBlank?

/-- The cursor itself, or the place after the short title that opens there. -/
def passShortTitle? (c : Cursor) : Option Cursor :=
  if c.octet = .first '[' then c.skipShortTitle? else some c

/-- The stretch inside the braces that open at the cursor. -/
def bracedRange? (c : Cursor) : Option Range :=
  if c.octet = .first '{' then
    c.advance?.bind fun start =>
      (start.findClose? .brace .zero).map fun close => .between start.position close.position
  else none

end Cursor

namespace Occurrence

def isGenuine (b : Buffer) (o : Occurrence) : Bool :=
  (b.line? o.range.start.row).any fun l => Text.isGenuine (Text.octets l) o.range.start.column

/-- The stretch of the argument, if the occurrence is a command with one. -/
def argument? (b : Buffer) (o : Occurrence) : Option Range :=
  if o.isGenuine b then
    (b.cursorAt? o.delimiter).bind fun c =>
      c.skipBlank?.bind fun c => c.passShortTitle?.bind Cursor.bracedRange?
  else none

/-- The entry of an occurrence whose cleaned argument is `title`. -/
def entryOf (o : Occurrence) (source : SourceId) (title : List Char) : Entry :=
  if title.isEmpty then .rejected
  else
    match o.keyword.level? with
    | some level => .heading ⟨String.ofList title, level, o.range.start, source⟩
    | none => .inclusion ⟨String.ofList title, o.range.start⟩

/-- What an occurrence turns out to be. -/
def entry (s : Source) (o : Occurrence) : Except Error Entry :=
  match o.argument? s.buffer with
  | none => .ok .rejected
  | some range =>
    match s.excerpt? range with
    | none => .error (.rangeOutOfBounds s.id range)
    | some raw => .ok (o.entryOf s.id (Title.clean raw))

end Occurrence

namespace Source

/-- The entries of all occurrences in a source, in their order. -/
def entries (s : Source) : Except Error (List Entry) :=
  (Occurrence.scan s.buffer).mapM (Occurrence.entry s)

end Source
end Sectioning
