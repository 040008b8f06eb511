/-
Paths as text.

A path is read as a list of components.  Repeated slashes do not count, and
neither do single dots, except one at the very start of a relative path.  Two
paths with the same components are the same path, though two different paths may
well lead to one file.
-/
import Sectioning.Text.Blank

namespace Sectioning
namespace Path

/-- The pieces between the slashes. -/
def segments (path : String) : List String :=
  (Text.split '/' path.toList).map String.ofList

def isAbsolute (path : String) : Bool :=
  path.toList.head? == some '/'

inductive Component where
  /-- The slash at the start of an absolute path. -/
  | root
  /-- A single dot at the start of a relative path. -/
  | here
  /-- Two dots. -/
  | up
  | name (s : String)
  deriving DecidableEq

namespace Component

/-- The component that a segment stands for, after the first one. -/
def ofSegment? (s : String) : Option Component :=
  if s = "" ∨ s = "." then none else if s = ".." then some up else some (name s)

end Component

def components (path : String) : List Component :=
  let inner := (segments path).filterMap Component.ofSegment?
  if isAbsolute path then .root :: inner
  else if (segments path).head? = some "." then .here :: inner
  else inner

/-- Whether a segment after the first one is no component. -/
def isFiller (s : String) : Bool :=
  (Component.ofSegment? s).isNone

/-- Segments without those at the end that are no components. -/
def dropFillers (segments : List String) : List String :=
  (segments.reverse.dropWhile isFiller).reverse

/-- The text of a path whose segments are `first` and `rest`. -/
def ofSegments (first : String) (rest : List String) : String :=
  if first = "" ∧ rest = [] then "/" else "/".intercalate (first :: rest)

/-- The path up to its last component, as it is written.  The root and the empty
path have no parent. -/
def parent? (path : String) : Option String :=
  match segments path with
  | [] => none
  | first :: rest =>
    if dropFillers rest = [] then if first = "" then none else some ""
    else some (ofSegments first (dropFillers (dropFillers rest).dropLast))

/-- Whether the last component is a name with a dot after its first character. -/
def hasExtension (path : String) : Bool :=
  match (components path).getLast? with
  | some (.name s) => s.toList.tail.contains '.'
  | _ => false

/-- The path `name` as seen from the directory `base`. -/
def join (base name : String) : String :=
  if isAbsolute name || base == "" then name
  else if base.toList.getLast? == some '/' then base ++ name
  else base ++ "/" ++ name

/-! ## Short paths -/

/-- A bound on the number of paths of at most `n` bytes.  It counts a character or
none for each byte. -/
def countWithin (n : Nat) : Nat :=
  Nat.pow (0x110000 + 1) n

theorem length_flatMap_const {α β : Type} {f : α → List β} {k : Nat} (h : ∀ a, (f a).length = k)
    (l : List α) : (l.flatMap f).length = l.length * k := by
  induction l with
  | nil => simp
  | cons a l ih => rw [List.flatMap_cons, List.length_append, h, ih, List.length_cons,
      Nat.succ_mul, Nat.add_comm]

theorem exists_chars : ∃ chars : List Char, chars.length = 0x110000 ∧ ∀ c : Char, c ∈ chars := by
  refine ⟨(List.range 0x110000).map Char.ofNat, ?_, fun c => ?_⟩
  · rw [List.length_map, List.length_range]
  · have hvalid : c.toNat < 0xd800 ∨ 0xdfff < c.toNat ∧ c.toNat < 0x110000 := c.valid
    exact List.mem_map.2 ⟨c.toNat, List.mem_range.2 (by omega), Char.ofNat_toNat c⟩

theorem exists_texts (n : Nat) :
    ∃ texts : List (List Char), texts.length = countWithin n ∧
      ∀ cs : List Char, cs.length ≤ n → cs ∈ texts := by
  obtain ⟨chars, hchars, hall⟩ := exists_chars
  induction n with
  | zero => exact ⟨[[]], rfl, fun cs hcs => by simp [List.length_eq_zero_iff.1 (Nat.le_zero.1 hcs)]⟩
  | succ n ih =>
    obtain ⟨texts, hlength, htexts⟩ := ih
    -- one more character in front of the texts at hand, or none
    refine ⟨(none :: chars.map some).flatMap fun d => texts.map fun cs => d.elim cs (· :: cs),
      ?_, fun cs hcs => ?_⟩
    · rw [length_flatMap_const (fun _ => List.length_map _), hlength, List.length_cons,
        List.length_map, hchars, Nat.mul_comm]
      exact Eq.symm (Nat.pow_succ ..)
    · cases cs with
      | nil =>
        exact List.mem_flatMap.2 ⟨none, List.mem_cons_self,
          List.mem_map.2 ⟨[], htexts [] (Nat.zero_le n), rfl⟩⟩
      | cons c cs =>
        have hc : some c ∈ none :: chars.map some :=
          List.mem_cons_of_mem _ (List.mem_map_of_mem (hall c))
        exact List.mem_flatMap.2 ⟨some c, hc,
          List.mem_map.2 ⟨cs, htexts cs (Nat.le_of_succ_le_succ hcs), rfl⟩⟩

theorem length_toList_le (path : String) : path.toList.length ≤ path.utf8ByteSize := by
  have hchars : ∀ cs : List Char, cs.length ≤ (String.ofList cs).utf8ByteSize := by
    intro cs
    induction cs with
    | nil => exact Nat.zero_le _
    | cons c cs ih =>
      have hcons : String.ofList (c :: cs) = String.singleton c ++ String.ofList cs := by
        apply String.toList_inj.1
        simp
      rw [hcons, String.utf8ByteSize_append, String.utf8ByteSize_singleton, List.length_cons]
      have := c.utf8Size_pos
      omega
  have h := hchars path.toList
  rwa [String.ofList_toList] at h

/-- The paths of at most `n` bytes can be listed. -/
theorem exists_paths (n : Nat) :
    ∃ paths : List String, paths.length = countWithin n ∧
      ∀ path : String, path.utf8ByteSize ≤ n → path ∈ paths := by
  obtain ⟨texts, hlength, htexts⟩ := exists_texts n
  refine ⟨texts.map String.ofList, by rw [List.length_map, hlength], fun path hpath => ?_⟩
  refine List.mem_map.2 ⟨path.toList, htexts _ ?_, String.ofList_toList⟩
  exact Nat.le_trans (length_toList_le path) hpath

end Path
end Sectioning
