/-
The set of folded headings, as the increasing list of their indices.  Two sets
with the same members are equal.
-/

namespace Sectioning

namespace Folds

/-- Puts `i` into an increasing list. -/
def insertInto (i : Nat) : List Nat → List Nat
  | [] => [i]
  | j :: js => if i < j then i :: j :: js else if i = j then j :: js else j :: insertInto i js

theorem mem_insertInto {i k : Nat} {js : List Nat} :
    k ∈ insertInto i js ↔ k = i ∨ k ∈ js := by
  induction js with
  | nil => simp [insertInto]
  | cons j js ih =>
    unfold insertInto
    split
    · simp
    · split
      · next h => simp [h]
      · simp only [List.mem_cons, ih]
        constructor
        · rintro (h | h | h) <;> simp [h]
        · rintro (h | h | h) <;> simp [h]

theorem pairwise_insertInto {i : Nat} {js : List Nat} (h : js.Pairwise (· < ·)) :
    (insertInto i js).Pairwise (· < ·) := by
  induction js with
  | nil => simp [insertInto]
  | cons j js ih =>
    obtain ⟨hj, hjs⟩ := List.pairwise_cons.1 h
    unfold insertInto
    split
    · next hlt =>
      refine List.pairwise_cons.2 ⟨fun k hk => ?_, h⟩
      cases hk with
      | head => exact hlt
      | tail _ hk => exact Nat.lt_trans hlt (hj k hk)
    · split
      · exact h
      · refine List.pairwise_cons.2 ⟨fun k hk => ?_, ih hjs⟩
        rcases mem_insertInto.1 hk with rfl | hk
        · omega
        · exact hj k hk

end Folds

structure Folds where
  indices : List Nat
  increasing : indices.Pairwise (· < ·)

namespace Folds

def empty : Folds :=
  ⟨[], List.Pairwise.nil⟩

def contains (f : Folds) (i : Nat) : Bool :=
  f.indices.contains i

def insert (f : Folds) (i : Nat) : Folds :=
  ⟨insertInto i f.indices, pairwise_insertInto f.increasing⟩

/-- The folded headings that satisfy `keep`. -/
def filter (f : Folds) (keep : Nat → Bool) : Folds :=
  ⟨f.indices.filter keep, f.increasing.filter keep⟩

def erase (f : Folds) (i : Nat) : Folds :=
  f.filter (· != i)

end Folds
end Sectioning
