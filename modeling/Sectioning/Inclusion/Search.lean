/-
Looking for included documents on a disk.

A name is looked for in the directory of the root document first, and then in
the directory of the document that holds the command.  In each directory its
spellings are tried in order.  The first path with a file at it decides, and if
that file is no text, nothing is found.
-/
import Sectioning.Files.Disk
import Sectioning.Inclusion.Library

namespace Sectioning

structure Search where
  disk : Disk
  /-- The directory of the root document. -/
  directory : String
  extensions : List String

namespace Search

/-- The directory in which the inclusions of a root document are looked for. -/
def directoryOf (root : String) : String :=
  (Path.parent? root).getD "."

/-- The search for a root document at the path `root`. -/
def ofRoot (disk : Disk) (root : String) (extensions : List String) : Search :=
  ⟨disk, directoryOf root, extensions⟩

/-- The paths at which a document may stand, in the order in which they are
tried. -/
def candidates (s : Search) (target : String) (asker : SourceId) : List String :=
  let name := trimmed target
  if name = "" then []
  else
    (s.directory :: (Path.parent? asker.name).toList).flatMap fun base =>
      (spellings name s.extensions).map (Path.join base)

def resolve (s : Search) : Resolver := fun target asker =>
  ((s.candidates target asker).find? s.disk.isFile).bind fun path =>
    (s.disk.openBuffer path).toOption

theorem exists_path_of_resolve {s : Search} {target : String} {asker : SourceId} {b : Buffer}
    (h : s.resolve target asker = some b) :
    ∃ path text, s.disk.read path = .ok text ∧ b.id = s.disk.sourceId path := by
  obtain ⟨path, _, hopen⟩ := Option.bind_eq_some_iff.1 h
  cases hb : s.disk.openBuffer path with
  | error e => simp [hb, Except.toOption] at hopen
  | ok b' =>
    simp only [hb, Except.toOption, Option.some.injEq] at hopen
    obtain ⟨text, hread, rfl⟩ := Disk.openBuffer_eq_ok_iff.1 hb
    exact ⟨path, text, hread, by rw [← hopen, Buffer.id_ofString]⟩

def library (s : Search) : Library where
  resolve := s.resolve
  bound := s.disk.bound
  length_le_bound := by
    intro ids hnodup hgives
    refine s.disk.length_le_bound hnodup fun id hid => ?_
    obtain ⟨target, asker, b, hresolve, rfl⟩ := hgives id hid
    exact exists_path_of_resolve hresolve

end Search
end Sectioning
