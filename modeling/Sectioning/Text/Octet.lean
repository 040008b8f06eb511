/-
The bytes of a text.

Columns count bytes, and the bytes that matter for finding delimiters are those
that begin a character.  An octet therefore records which character it begins,
or that it continues one.  `octets` lists the octets of a text, and the bytes of
its UTF-8 form stand at the same offsets.
-/

namespace Sectioning

/-- One byte of a text in UTF-8. -/
inductive Octet where
  /-- The byte that begins `c`. -/
  | first (c : Char)
  /-- A further byte of a character. -/
  | later
  deriving DecidableEq

namespace Text

/-- The octets of `c` after its first. -/
def laterOctets (c : Char) : List Octet :=
  List.replicate (c.utf8Size - 1) .later

def octets : List Char → List Octet
  | [] => []
  | c :: cs => .first c :: (laterOctets c ++ octets cs)

/-- The length of the UTF-8 form. -/
def byteLength : List Char → Nat
  | [] => 0
  | c :: cs => c.utf8Size + byteLength cs

theorem byteLength_append (cs ds : List Char) :
    byteLength (cs ++ ds) = byteLength cs + byteLength ds := by
  induction cs with
  | nil => simp [byteLength]
  | cons c cs ih => simp [byteLength, ih, Nat.add_assoc]

theorem length_laterOctets (c : Char) : (laterOctets c).length = c.utf8Size - 1 := by
  simp [laterOctets]

theorem length_octets (cs : List Char) : (octets cs).length = byteLength cs := by
  induction cs with
  | nil => rfl
  | cons c cs ih =>
    have := c.utf8Size_pos
    simp only [octets, byteLength, List.length_cons, List.length_append, length_laterOctets, ih]
    omega

/-- What follows the first `n` bytes, if these end with a whole character. -/
def dropBytes? : Nat → List Char → Option (List Char)
  | 0, cs => some cs
  | _ + 1, [] => none
  | n + 1, c :: cs =>
    if c.utf8Size ≤ n + 1 then dropBytes? (n + 1 - c.utf8Size) cs else none

/-- The first `n` bytes, if these end with a whole character. -/
def takeBytes? : Nat → List Char → Option (List Char)
  | 0, _ => some []
  | _ + 1, [] => none
  | n + 1, c :: cs =>
    if c.utf8Size ≤ n + 1 then (takeBytes? (n + 1 - c.utf8Size) cs).map (c :: ·) else none

/-- The text between two byte offsets, if both lie between characters and in
this order. -/
def cut? (start stop : Nat) (cs : List Char) : Option (List Char) :=
  if start ≤ stop then (dropBytes? start cs).bind (takeBytes? (stop - start)) else none

end Text
end Sectioning
