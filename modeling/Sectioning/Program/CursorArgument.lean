/-
Cursors as the user writes them: a line and a column, counted from one, with a
colon between.  The column may be missing and is then the first.
-/
import Sectioning.Text.Blank
import Sectioning.Text.Position

namespace Sectioning

/-- What is wrong with a cursor. -/
inductive CursorFault where
  | line (text : String)
  | column (text : String)
  | zero
  deriving DecidableEq

namespace CursorFault

def message : CursorFault → String
  | line text => "invalid line '" ++ text ++ "'"
  | column text => "invalid column '" ++ text ++ "'"
  | zero => "line and column are 1-based"

end CursorFault

namespace CursorArgument

/-- Numbers have 64 bits. -/
def bound : Nat := Nat.pow 2 64

/-- The number that some digits give. -/
def ofDigits (cs : List Char) : Nat :=
  cs.foldl (fun n c => n * 10 + (c.toNat - '0'.toNat)) 0

/-- A numeral: one or more digits. -/
def numeral? (cs : List Char) : Option Nat :=
  if cs.isEmpty || !cs.all Char.isDigit then none
  else if ofDigits cs < bound then some (ofDigits cs)
  else none

/-- A number: a numeral that may have a plus sign, with blanks around it. -/
def number? (cs : List Char) : Option Nat :=
  match Text.trim cs with
  | '+' :: cs => numeral? cs
  | cs => numeral? cs

/-- The texts of the line and of the column. -/
def parts (cs : List Char) : List Char × List Char :=
  (cs.takeWhile (· != ':'), ((cs.dropWhile (· != ':')).tail?).getD ['1'])

def parse (raw : String) : Except CursorFault Position :=
  let (line, column) := parts raw.toList
  match number? line with
  | none => .error (.line (String.ofList line))
  | some l =>
    match number? column with
    | none => .error (.column (String.ofList column))
    | some c => if l = 0 ∨ c = 0 then .error .zero else .ok ⟨l - 1, c - 1⟩

end CursorArgument
end Sectioning
