/-
TOML documents.

A document is read line by line.  Each line is empty, sets a key in the table of
the last header, or is a header itself.
-/
import Sectioning.Settings.Toml.Text

namespace Sectioning
namespace Toml

/-! ## Values -/

/-- What follows blanks, comments and line breaks.  A comment that holds a control
character is not passed. -/
def skipLines (fuel : Nat) (cs : List Char) : List Char :=
  match fuel with
  | 0 => cs
  | fuel + 1 =>
    match skipComment (skipSpaces cs) with
    | '\n' :: rest => skipLines fuel rest
    | '\r' :: '\n' :: rest => skipLines fuel rest
    | rest => rest

/-- A word.  A date may be followed by a space and a time. -/
def readWord (cs : List Char) : Option (Value × List Char) :=
  let word := cs.takeWhile isWordChar
  let rest := cs.dropWhile isWordChar
  match rest with
  | ' ' :: c :: more =>
    if isDate word && c.isDigit then
      (word? (word ++ ' ' :: (c :: more).takeWhile isWordChar)).map
        (·, (c :: more).dropWhile isWordChar)
    else (word? word).map (·, rest)
  | _ => (word? word).map (·, rest)

mutual

/-- A value in which arrays and tables nest at most `depth` deep. -/
def value? (fuel depth : Nat) (cs : List Char) : Option (Value × List Char) :=
  match fuel with
  | 0 => none
  | fuel + 1 =>
    match cs with
    | '[' :: rest =>
      if depth = 0 then none
      else (elements? fuel (depth - 1) rest).map fun r => (.array r.1, r.2)
    | '\x7b' :: rest =>
      if depth = 0 then none
      else
        match skipSpaces rest with
        | '\x7d' :: rest => some (.table .inline [], rest)
        | rest => (members? fuel (depth - 1) [] rest).map fun r => (.table .inline r.1, r.2)
    | c :: _ =>
      if c = '"' ∨ c = '\'' then (string? cs).map fun r => (.string (String.ofList r.1), r.2)
      else readWord cs
    | [] => none

/-- The rest of an array, after its opening bracket or after a comma. -/
def elements? (fuel depth : Nat) (cs : List Char) : Option (List Value × List Char) :=
  match fuel with
  | 0 => none
  | fuel + 1 =>
    match skipLines cs.length cs with
    | ']' :: rest => some ([], rest)
    | start =>
      (value? fuel depth start).bind fun v =>
        match skipLines v.2.length v.2 with
        | ',' :: rest => (elements? fuel depth rest).map fun r => (v.1 :: r.1, r.2)
        | ']' :: rest => some ([v.1], rest)
        | _ => none

/-- The rest of a table in braces, from a key on. -/
def members? (fuel depth : Nat) (entries : Entries) (cs : List Char) :
    Option (Entries × List Char) :=
  match fuel with
  | 0 => none
  | fuel + 1 =>
    (key? cs).bind fun k =>
      match k.2 with
      | '=' :: rest =>
        (value? fuel depth (skipSpaces rest)).bind fun v =>
          (entries.assign v.1 k.1.2 k.1.1).bind fun entries =>
            match skipSpaces v.2 with
            | ',' :: rest => members? fuel depth entries rest
            | '\x7d' :: rest => some (entries, rest)
            | _ => none
      | _ => none

end

/-! ## Lines -/

/-- A document as far as it has been read: its entries, and the names that lead to
the table of the last header. -/
structure Reading where
  entries : Entries
  table : List String

/-- A line that sets a key. -/
def setKey? (r : Reading) (cs : List Char) : Option (Reading × List Char) :=
  (key? cs).bind fun k =>
    match k.2 with
    | '=' :: rest =>
      (value? (rest.length + 1) maxNesting (skipSpaces rest)).bind fun v =>
        (r.entries.within (fun es => es.assign v.1 k.1.2 k.1.1) r.table).bind fun entries =>
          (endLine? v.2).map fun rest => ({ r with entries := entries }, rest)
    | _ => none

/-- A header in single brackets, after the opening one. -/
def header? (r : Reading) (cs : List Char) : Option (Reading × List Char) :=
  (key? cs).bind fun k =>
    match k.2 with
    | ']' :: rest =>
      (r.entries.within (Entries.header k.1.2) k.1.1).bind fun entries =>
        (endLine? rest).map fun rest => (⟨entries, k.1.1 ++ [k.1.2]⟩, rest)
    | _ => none

/-- A header in double brackets, after the opening ones. -/
def arrayHeader? (r : Reading) (cs : List Char) : Option (Reading × List Char) :=
  (key? cs).bind fun k =>
    match k.2 with
    | ']' :: ']' :: rest =>
      (r.entries.within (Entries.arrayHeader k.1.2) k.1.1).bind fun entries =>
        (endLine? rest).map fun rest => (⟨entries, k.1.1 ++ [k.1.2]⟩, rest)
    | _ => none

/-- A line, and what follows it. -/
def line? (r : Reading) (cs : List Char) : Option (Reading × List Char) :=
  match skipSpaces cs with
  | [] => some (r, [])
  | '[' :: '[' :: rest => arrayHeader? r rest
  | '[' :: rest => header? r rest
  | c :: rest =>
    if c = '#' ∨ c = '\n' ∨ c = '\r' then (endLine? (c :: rest)).map (r, ·)
    else setKey? r (c :: rest)

/-- The entries of a document of at most `fuel` lines. -/
def lines? (fuel : Nat) (r : Reading) (cs : List Char) : Option Entries :=
  match fuel, cs with
  | _, [] => some r.entries
  | 0, _ => none
  | fuel + 1, cs => (line? r cs).bind fun next => lines? fuel next.1 next.2

/-- The entries of a document.  A byte order mark at its start does not count. -/
def parse? (text : String) : Option Entries :=
  let cs := match text.toList with
    | '\ufeff' :: rest => rest
    | cs => cs
  lines? cs.length ⟨[], []⟩ cs

end Toml
end Sectioning
