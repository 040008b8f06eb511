/-
A disk known only in part: what was found at some paths.
-/
import Sectioning.Files.Disk

namespace Sectioning

/-- What was found at a path. -/
structure FileRecord where
  path : String
  /-- The canonical path of the file, if it could be had. -/
  real? : Option String
  content : Except ReadFailure String

namespace FileRecord

/-- Whether a file is there, be it text or not. -/
def isFile (r : FileRecord) : Bool :=
  match r.content with
  | .ok _ => true
  | .error failure => failure = .notText

def find? (records : List FileRecord) (path : String) : Option FileRecord :=
  records.find? fun r => r.path == path

def read (records : List FileRecord) (path : String) : Except ReadFailure String :=
  match find? records path with
  | none => .error .notFound
  | some r => r.content

def realPath? (records : List FileRecord) (path : String) : Option String :=
  (find? records path).bind (·.real?)

theorem length_le {records : List FileRecord} {ids : List SourceId} (hnodup : ids.Nodup)
    (h : ∀ id ∈ ids, ∃ path text, read records path = .ok text ∧
      id = ⟨(realPath? records path).getD path⟩) : ids.length ≤ records.length := by
  have hsub : ids ⊆ records.map fun r => ⟨r.real?.getD r.path⟩ := by
    intro id hid
    obtain ⟨path, text, hread, rfl⟩ := h id hid
    unfold read at hread
    split at hread
    · cases hread
    · next r hr =>
      have hpath : r.path = path := by simpa using List.find?_some hr
      refine List.mem_map.2 ⟨r, List.mem_of_find?_eq_some hr, ?_⟩
      rw [realPath?, hr, Option.bind_some, hpath]
  have hlen := List.Nodup.length_le_of_subset hnodup hsub
  rwa [List.length_map] at hlen

/-- The disk that holds what was found, and nothing else. -/
def disk (records : List FileRecord) : Disk where
  isFile path := (find? records path).any isFile
  read := read records
  realPath? := realPath? records
  bound := records.length
  length_le_bound := length_le

/-- A number that tells the contents of a file apart. -/
def stamp? (records : List FileRecord) (path : String) : Option Nat :=
  (find? records path).bind fun r => r.content.toOption.map fun text => (hash text).toNat

end FileRecord
end Sectioning
