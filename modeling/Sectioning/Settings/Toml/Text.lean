/-
TOML strings, keys and comments.

A reader takes something from the start of a text and gives it with the rest, or
gives nothing.
-/
import Sectioning.Settings.Toml.Scalar

namespace Sectioning
namespace Toml

abbrev Reader (α : Type) := List Char → Option (α × List Char)

/-- Spaces and tabs. -/
def isSpace (c : Char) : Bool :=
  c == ' ' || c == '\t'

def skipSpaces (cs : List Char) : List Char :=
  cs.dropWhile isSpace

/-- The characters of comments and of strings in single quotes: all but control
characters, among which a tab does not count. -/
def isPrintable (c : Char) : Bool :=
  c == '\t' || (32 ≤ c.toNat && c.toNat != 127)

/-- What follows a line break at the start of a text. -/
def afterBreak? : List Char → Option (List Char)
  | '\n' :: cs => some cs
  | '\r' :: '\n' :: cs => some cs
  | _ => none

/-- What follows a comment at the start of a text, if there is one. -/
def skipComment (cs : List Char) : List Char :=
  match cs with
  | '#' :: rest => rest.dropWhile isPrintable
  | _ => cs

/-- What follows the end of a line: spaces, a comment, and a line break or the
end of the text. -/
def endLine? (cs : List Char) : Option (List Char) :=
  match skipComment (skipSpaces cs) with
  | [] => some []
  | rest => afterBreak? rest

/-! ## Strings -/

/-- The character that a letter after a backslash stands for. -/
def escape? (c : Char) : Option Char :=
  if c = 'b' then some '\x08'
  else if c = 't' then some '\t'
  else if c = 'n' then some '\n'
  else if c = 'f' then some '\x0c'
  else if c = 'r' then some '\r'
  else if c = '"' then some '"'
  else if c = '\\' then some '\\'
  else none

/-- The character with the number that some digits in base 16 give. -/
def codePoint? (cs : List Char) : Option Char :=
  (cs.mapM (digit? 16)).bind fun ds =>
    let n := ofDigits 16 ds
    if n.isValidChar then some (Char.ofNat n) else none

/-- The character that an escape after its backslash stands for, and the length of
the escape. -/
def escaped? : List Char → Option (Char × Nat)
  | 'u' :: cs => if 4 ≤ cs.length then (codePoint? (cs.take 4)).map (·, 5) else none
  | 'U' :: cs => if 8 ≤ cs.length then (codePoint? (cs.take 8)).map (·, 9) else none
  | c :: _ => (escape? c).map (·, 1)
  | [] => none

/-- The rest of a string in double quotes. -/
def basicString (cs : List Char) : Option (List Char × List Char) :=
  match cs with
  | [] => none
  | c :: rest =>
    if c = '"' then some ([], rest)
    else if c = '\\' then
      (escaped? rest).bind fun e => (basicString (rest.drop e.2)).map fun r => (e.1 :: r.1, r.2)
    else if isPrintable c then (basicString rest).map fun r => (c :: r.1, r.2)
    else none
termination_by cs.length
decreasing_by all_goals simp only [List.length_drop, List.length_cons]; omega

/-- The rest of a string in single quotes. -/
def literalString : List Char → Option (List Char × List Char)
  | [] => none
  | c :: rest =>
    if c = '\'' then some ([], rest)
    else if isPrintable c then (literalString rest).map fun r => (c :: r.1, r.2)
    else none

/-- The end of a string in three quotes, with at most two quotes of its own in
front. -/
def closing? (quote : Char) (cs : List Char) : Option (List Char × List Char) :=
  let quotes := min 5 (cs.takeWhile (· == quote)).length
  if 3 ≤ quotes then some (List.replicate (quotes - 3) quote, cs.drop quotes) else none

/-- What follows spaces, tabs and line breaks. -/
def skipBreaks : List Char → List Char
  | '\r' :: '\n' :: cs => skipBreaks cs
  | c :: cs => if isSpace c || c == '\n' then skipBreaks cs else c :: cs
  | [] => []

theorem length_skipBreaks (cs : List Char) : (skipBreaks cs).length ≤ cs.length := by
  fun_induction skipBreaks cs with
  | case1 cs ih => simp only [List.length_cons]; omega
  | case2 c cs _ _ ih => simp only [List.length_cons]; omega
  | case3 => exact Nat.le_refl _
  | case4 => exact Nat.le_refl _

/-- What follows a backslash at the end of a line, with all spaces, tabs and line
breaks after it. -/
def afterContinuation? (cs : List Char) : Option (List Char) :=
  (afterBreak? (skipSpaces cs)).map skipBreaks

theorem length_afterContinuation? {cs rest : List Char} (h : afterContinuation? cs = some rest) :
    rest.length ≤ cs.length := by
  obtain ⟨mid, hmid, rfl⟩ := Option.map_eq_some_iff.1 h
  have hspaces : (skipSpaces cs).length ≤ cs.length :=
    (List.dropWhile_sublist isSpace).length_le
  have hbreak : mid.length ≤ (skipSpaces cs).length := by
    generalize skipSpaces cs = l at hmid
    unfold afterBreak? at hmid
    split at hmid
    · cases hmid; simp
    · cases hmid; simp; omega
    · cases hmid
  exact Nat.le_trans (length_skipBreaks mid) (Nat.le_trans hbreak hspaces)

/-- The rest of a string in three double quotes. -/
def longBasicString (cs : List Char) : Option (List Char × List Char) :=
  match closing? '"' cs with
  | some r => some r
  | none =>
    match cs with
    | [] => none
    | '\r' :: '\n' :: rest => (longBasicString rest).map fun r => ('\n' :: r.1, r.2)
    | c :: rest =>
      if c = '\\' then
        match _h : afterContinuation? rest with
        | some after => longBasicString after
        | none =>
          (escaped? rest).bind fun e =>
            (longBasicString (rest.drop e.2)).map fun r => (e.1 :: r.1, r.2)
      else if isPrintable c || c == '\n' then (longBasicString rest).map fun r => (c :: r.1, r.2)
      else none
termination_by cs.length
decreasing_by
  · simp only [List.length_cons]; omega
  · have := length_afterContinuation? _h
    simp only [List.length_cons]; omega
  · simp only [List.length_drop, List.length_cons]; omega
  · simp only [List.length_cons]; omega

/-- The rest of a string in three single quotes. -/
def longLiteralString (cs : List Char) : Option (List Char × List Char) :=
  match closing? '\'' cs with
  | some r => some r
  | none =>
    match cs with
    | [] => none
    | '\r' :: '\n' :: rest => (longLiteralString rest).map fun r => ('\n' :: r.1, r.2)
    | c :: rest =>
      if isPrintable c || c == '\n' then (longLiteralString rest).map fun r => (c :: r.1, r.2)
      else none

/-- A line break right after the opening quotes does not count. -/
def trimOpening (cs : List Char) : List Char :=
  (afterBreak? cs).getD cs

/-- A string of any of the four kinds. -/
def string? : Reader (List Char)
  | '"' :: '"' :: '"' :: cs => longBasicString (trimOpening cs)
  | '"' :: cs => basicString cs
  | '\'' :: '\'' :: '\'' :: cs => longLiteralString (trimOpening cs)
  | '\'' :: cs => literalString cs
  | _ => none

/-! ## Keys -/

def isKeyChar (c : Char) : Bool :=
  c.isAlphanum || c == '_' || c == '-'

/-- One part of a key. -/
def keyPart? : Reader String
  | '"' :: cs => (basicString cs).map fun r => (String.ofList r.1, r.2)
  | '\'' :: cs => (literalString cs).map fun r => (String.ofList r.1, r.2)
  | cs =>
    let name := cs.takeWhile isKeyChar
    if name.isEmpty then none else some (String.ofList name, cs.dropWhile isKeyChar)

/-- How deep the values and the keys of a document may nest. -/
def maxNesting : Nat := 79

/-- The parts of a key with dots between them, if there are at most `most`. -/
def keyParts? (most : Nat) (cs : List Char) : Option (List String × List Char) :=
  match most with
  | 0 => none
  | most + 1 =>
    (keyPart? (skipSpaces cs)).bind fun part =>
      match skipSpaces part.2 with
      | '.' :: rest => (keyParts? most rest).map fun r => (part.1 :: r.1, r.2)
      | rest => some ([part.1], rest)

/-- A key as the names on the way and the last name. -/
def key? (cs : List Char) : Option ((List String × String) × List Char) :=
  (keyParts? maxNesting cs).bind fun r =>
    r.1.getLast?.map fun last => ((r.1.dropLast, last), r.2)

end Toml
end Sectioning
