/-
How eagerly an outline follows changes.
-/
import Sectioning.Error

namespace Sectioning

inductive Frequency where
  /-- At once. -/
  | high
  /-- After half a second without changes. -/
  | medium
  /-- After two seconds without changes. -/
  | low
  /-- Only when a document is saved. -/
  | onSaveOnly
  deriving DecidableEq

namespace Frequency

def label : Frequency → String
  | high => "High"
  | medium => "Medium"
  | low => "Low"
  | onSaveOnly => "On Save Only"

/-- The quiet time before a change is acted on, in milliseconds.  With none,
changes are not acted on. -/
def delay? : Frequency → Option Nat
  | high => some 0
  | medium => some 500
  | low => some 2000
  | onSaveOnly => none

/-- A label without spaces, hyphens and underscores, in small letters.  No
character outside ASCII has a letter of a label for its small letter, so small
letters are taken of ASCII characters only. -/
def fold (label : String) : String :=
  String.ofList ((label.toList.filter fun c => c != ' ' && c != '-' && c != '_').map Char.toLower)

/-- The frequency that a label names, however it is spelled. -/
def ofLabel? (label : String) : Option Frequency :=
  [high, medium, low, onSaveOnly].find? fun f => fold f.label == fold label

def ofLabel (label : String) : Except Error Frequency :=
  match ofLabel? label with
  | some f => .ok f
  | none => .error (.unknownFrequency label)

end Frequency
end Sectioning
