/-
One count in place of two.

A search for the end of a group counts the open groups of both kinds and asks only
about its own.  Its own count is not negative as long as the search goes on, for a
delimiter that would make it so ends the search.  So the search is one that counts the
groups of its own kind by a natural number (`findClose?_eq_matchClose?`), and the other
count has no effect, whatever it is.
-/
import Sectioning.Heading.Entry

namespace Sectioning

namespace Delimiter

/-- The number of open groups of this kind after reading `o`. -/
def depthAfter (d : Delimiter) (o : Octet) (depth : Nat) : Nat :=
  if o = .first d.closer then depth - 1
  else if o = .first d.opener then depth + 1
  else depth

end Delimiter

namespace Counts

/-- Groups of one kind only. -/
def only (d : Delimiter) (m : Nat) : Counts :=
  match d with
  | .brace => ⟨m, 0⟩
  | .bracket => ⟨0, m⟩

theorem get_only (d : Delimiter) (m : Nat) : (only d m).get d = m := by
  cases d <;> rfl

theorem get_zero (d : Delimiter) : zero.get d = (0 : Nat) := by
  cases d <;> rfl

/-- The count of a kind follows the delimiters of that kind. -/
theorem get_after (n : Counts) (d : Delimiter) (o : Octet) :
    (n.after o).get d = if o = .first d.closer then n.get d - 1
      else if o = .first d.opener then n.get d + 1 else n.get d := by
  cases d with
  | brace => grind [after, get, Delimiter.closer, Delimiter.opener]
  | bracket => grind [after, get, Delimiter.closer, Delimiter.opener]

/-- A count that is not negative stays so, unless a delimiter closes more than was opened. -/
theorem get_after_eq_depthAfter {n : Counts} {d : Delimiter} {m : Nat} {o : Octet}
    (h : n.get d = m) (ho : ¬ (o = .first d.closer ∧ m = 0)) :
    (n.after o).get d = d.depthAfter o m := by
  rw [get_after, Delimiter.depthAfter, h]
  split
  · next hcloser =>
    have hm : m ≠ 0 := fun hm => ho ⟨hcloser, hm⟩
    omega
  · split <;> rfl

end Counts

namespace Cursor

/-- The delimiter that closes the group around the cursor, where `depth` further
groups of the kind are open. -/
def matchClose? (d : Delimiter) (depth : Nat) (c : Cursor) : Option Cursor :=
  if c.octet = .first d.closer ∧ depth = 0 then some c
  else
    match _h : c.onward? with
    | none => none
    | some e => matchClose? d (d.depthAfter c.octet depth) e
termination_by c.remaining
decreasing_by exact onward?_remaining _h

theorem findClose?_eq (k : Delimiter) (n : Counts) (c : Cursor) :
    findClose? k n c = if c.octet = .first k.closer ∧ n.get k = 0 then some c
      else c.onward?.bind (findClose? k (n.after c.octet)) := by
  rw [findClose?]
  split
  · rfl
  · split
    · next h => rw [h, Option.bind_none]
    · next e h => rw [h, Option.bind_some]

theorem matchClose?_eq (k : Delimiter) (n : Nat) (c : Cursor) :
    matchClose? k n c = if c.octet = .first k.closer ∧ n = 0 then some c
      else c.onward?.bind (matchClose? k (k.depthAfter c.octet n)) := by
  rw [matchClose?]
  split
  · rfl
  · split
    · next h => rw [h, Option.bind_none]
    · next e h => rw [h, Option.bind_some]

/-- The count of the other kind has no effect. -/
theorem findClose?_eq_matchClose? {k : Delimiter} {n : Counts} {m : Nat} (h : n.get k = m)
    (c : Cursor) : findClose? k n c = matchClose? k m c := by
  fun_induction matchClose? k m c generalizing n with
  | case1 m c hclose =>
    rw [findClose?_eq, if_pos ⟨hclose.1, by omega⟩]
  | case2 m c hclose hnone =>
    rw [findClose?_eq, if_neg fun hc => hclose ⟨hc.1, by omega⟩, hnone, Option.bind_none]
  | case3 m c hclose e he ih =>
    rw [findClose?_eq, if_neg fun hc => hclose ⟨hc.1, by omega⟩, he, Option.bind_some]
    exact ih (Counts.get_after_eq_depthAfter h hclose)

theorem findClose?_zero (k : Delimiter) (c : Cursor) : findClose? k .zero c = matchClose? k 0 c :=
  findClose?_eq_matchClose? (Counts.get_zero k) c

theorem skipShortTitle?_eq (c : Cursor) :
    c.skipShortTitle? = c.advance?.bind fun start =>
      (start.matchClose? .bracket 0).bind fun close => close.advance?.bind skipBlank? := by
  simp only [skipShortTitle?, findClose?_zero]

theorem bracedRange?_eq (c : Cursor) :
    c.bracedRange? = if c.octet = .first '{' then
      c.advance?.bind fun start =>
        (start.matchClose? .brace 0).map fun close => .between start.position close.position
      else none := by
  simp only [bracedRange?, findClose?_zero]

end Cursor
end Sectioning
