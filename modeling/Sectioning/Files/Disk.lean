/-
What the program asks of a file system.

A disk answers three questions about a path: whether a file is there, what text
the file holds, and what its canonical path is.  A file can be there without a
canonical path to be had, and then it goes by the path that it was found by.  Even
so there are finitely many names for the files of a disk, and this is what makes
following inclusions end, so a disk comes with a bound on their number.
-/
import Sectioning.Error
import Sectioning.Text.Buffer

namespace Sectioning

structure Disk where
  isFile : String → Bool
  read : String → Except ReadFailure String
  realPath? : String → Option String
  bound : Nat
  /-- The files that can be read go by at most that many names. -/
  length_le_bound : ∀ {ids : List SourceId}, ids.Nodup →
    (∀ id ∈ ids, ∃ path text, read path = .ok text ∧ id = ⟨(realPath? path).getD path⟩) →
      ids.length ≤ bound

namespace Disk

/-- A file is identified by its canonical path, and a path that has none by
itself. -/
def sourceId (d : Disk) (path : String) : SourceId :=
  ⟨(d.realPath? path).getD path⟩

def openBuffer (d : Disk) (path : String) : Except Error Buffer :=
  match d.read path with
  | .ok text => .ok (.ofString (d.sourceId path) text)
  | .error failure => .error (.read path failure)

theorem openBuffer_eq_ok_iff {d : Disk} {path : String} {b : Buffer} :
    d.openBuffer path = .ok b ↔
      ∃ text, d.read path = .ok text ∧ b = .ofString (d.sourceId path) text := by
  unfold openBuffer
  cases d.read path with
  | error failure => simp
  | ok text => simp [eq_comm]

end Disk
end Sectioning
