/-
Headings written as JSON, indented by two spaces.

In strings only the quotation mark, the backslash and the control characters
below the space are escaped.
-/
import Sectioning.Heading.Basic

namespace Sectioning
namespace JsonText

/-- The two characters of a small number in base 16. -/
def hexByte (n : Nat) : List Char :=
  [Nat.digitChar (n / 16), Nat.digitChar (n % 16)]

def escape (c : Char) : List Char :=
  if c = '"' then ['\\', '"']
  else if c = '\\' then ['\\', '\\']
  else if c = '\n' then ['\\', 'n']
  else if c = '\t' then ['\\', 't']
  else if c = '\r' then ['\\', 'r']
  else if c.toNat = 8 then ['\\', 'b']
  else if c.toNat = 12 then ['\\', 'f']
  else if c.toNat < 32 then ['\\', 'u', '0', '0'] ++ hexByte c.toNat
  else [c]

def quote (s : String) : String :=
  "\"" ++ String.ofList (s.toList.flatMap escape) ++ "\""

/-- The members of an object or an array, each on lines of its own. -/
def block (opener closer : String) (indent : String) (members : List String) : String :=
  opener ++ "\n" ++ ",\n".intercalate (members.map (indent ++ "  " ++ ·)) ++ "\n" ++ indent ++
    closer

def member (key value : String) : String :=
  quote key ++ ": " ++ value

def object (indent : String) (members : List String) : String :=
  block "\x7b" "\x7d" indent members

def ofPosition (indent : String) (p : Position) : String :=
  object indent [member "row" (toString p.row), member "column" (toString p.column)]

def ofHeading (indent : String) (h : Heading) : String :=
  object indent
    [member "title" (quote h.title), member "level" (toString h.level),
      member "anchor" (ofPosition (indent ++ "  ") h.anchor),
      member "source" (quote h.source.name)]

def ofHeadings (hs : List Heading) : String :=
  if hs.isEmpty then "[]" else block "[" "]" "" (hs.map (ofHeading "  "))

end JsonText
end Sectioning
