/-
A terminal as text: the keys in what it sends, and the rows in what it shows.

A terminal sends its input line by line.  A line holds any number of keys, and an
empty line is the enter key.
-/
import Sectioning.View.Cell
import Sectioning.View.Key

namespace Sectioning
namespace Terminal

def plainKey (code : KeyCode) : Key :=
  ⟨code, false⟩

/-- The key that a letter at the end of an escape sequence stands for. -/
def arrow? (c : Char) : Option KeyCode :=
  match c with
  | 'A' => some .up
  | 'B' => some .down
  | 'C' => some .right
  | 'D' => some .left
  | 'H' => some .home
  | 'F' => some .endKey
  | _ => none

/-- The keys in some input. -/
def keysIn : List Char → List Key
  | '\x1b' :: '[' :: '1' :: ';' :: '2' :: c :: cs =>
    ((arrow? c).map fun code => Key.mk code true).toList ++ keysIn cs
  | '\x1b' :: '[' :: c :: cs => ((arrow? c).map plainKey).toList ++ keysIn cs
  | '\x1b' :: cs => plainKey .escape :: keysIn cs
  | '\t' :: cs => plainKey .tab :: keysIn cs
  | c :: cs => plainKey (.char c) :: keysIn cs
  | [] => []

/-- The keys in a line of input. -/
def keys (line : String) : List Key :=
  match line.toList.filter fun c => c != '\n' && c != '\r' with
  | [] => [plainKey .enter]
  | cs => keysIn cs

/-- The number that stands for a colour in an escape sequence. -/
def colorCode : Color → Nat
  | .magenta => 35
  | .cyan => 36
  | .blue => 34
  | .darkGray => 90

def styleCodes (s : Style) : List Nat :=
  [0] ++ s.color.toList.map colorCode ++ (if s.bold then [1] else []) ++
    (if s.italic then [3] else []) ++ (if s.reversed then [7] else [])

def setStyle (s : Style) : String :=
  "\x1b[" ++ ";".intercalate ((styleCodes s).map toString) ++ "m"

/-- A cell as it is sent.  A covered cell is filled by the character before it. -/
def showCell : Cell → String
  | .glyph symbol style => setStyle style ++ String.ofList symbol
  | .covered => ""

/-- A whole screen as it is sent. -/
def showRows (rows : List (List Cell)) : String :=
  "\x1b[2J\x1b[H" ++ "\r\n".intercalate (rows.map fun r => String.join (r.map showCell)) ++
    setStyle .plain ++ "\r\n"

def enter : String := "\x1b[?1049h"

def leave : String := "\x1b[?1049l"

end Terminal
end Sectioning
