/-
The documents that inclusions name.

A resolver says which document an argument names, as seen from the document that
holds the command.  A name that finds nothing is no error.

A library is a resolver with finitely many documents: it has a bound on the number
of identities that it can ever give.  A shelf is the library of some documents held
under names.
-/
import Sectioning.Files.Path
import Sectioning.Text.Buffer

namespace Sectioning

/-- From the name in an inclusion and the document that holds it to the document
it names. -/
abbrev Resolver := String → SourceId → Option Buffer

/-- The resolver gives a document of that identity. -/
def Resolver.Gives (resolve : Resolver) (id : SourceId) : Prop :=
  ∃ target asker b, resolve target asker = some b ∧ b.id = id

structure Library where
  resolve : Resolver
  bound : Nat
  length_le_bound : ∀ {ids : List SourceId}, ids.Nodup →
    (∀ id ∈ ids, Resolver.Gives resolve id) → ids.length ≤ bound

namespace Library

/-- The library of a resolver whose documents can be listed. -/
def ofList (resolve : Resolver) (documents : List SourceId)
    (h : ∀ {target : String} {asker : SourceId} {b : Buffer},
      resolve target asker = some b → b.id ∈ documents) : Library where
  resolve := resolve
  bound := documents.length
  length_le_bound := by
    intro ids hnodup hgives
    refine List.Nodup.length_le_of_subset hnodup fun id hid => ?_
    obtain ⟨target, asker, b, hresolve, rfl⟩ := hgives id hid
    exact h hresolve

/-- The library without documents. -/
def empty : Library :=
  .ofList (fun _ _ => none) [] (by simp)

end Library

/-- The spellings under which a document is looked for.  The name as written
comes last, unless it has an extension of its own. -/
def spellings (target : String) (extensions : List String) : List String :=
  let extended := extensions.map fun e => target ++ "." ++ e
  if Path.hasExtension target then target :: extended else extended ++ [target]

/-- Documents held under names. -/
structure Shelf where
  /-- Names and texts, the latest first. -/
  documents : List (String × String)
  extensions : List String

namespace Shelf

/-- The empty shelf, where a name without an extension may stand for one with
`.tex`. -/
def empty : Shelf :=
  ⟨[], ["tex"]⟩

/-- Puts a document on the shelf, in place of an earlier one of that name. -/
def insert (s : Shelf) (name text : String) : Shelf :=
  { s with documents := (name, text) :: s.documents.filter fun d => d.1 != name }

def ofList (documents : List (String × String)) : Shelf :=
  documents.foldl (fun s d => s.insert d.1 d.2) empty

def text? (s : Shelf) (name : String) : Option String :=
  (s.documents.find? fun d => d.1 == name).map (·.2)

def resolve (s : Shelf) : Resolver := fun target _ =>
  (spellings (trimmed target) s.extensions).findSome? fun name =>
    (s.text? name).map (Buffer.ofString ⟨name⟩)

theorem resolve_mem {s : Shelf} {target : String} {asker : SourceId} {b : Buffer}
    (h : s.resolve target asker = some b) : b.id ∈ s.documents.map fun d => SourceId.mk d.1 := by
  obtain ⟨name, _, htext⟩ := List.exists_of_findSome?_eq_some h
  obtain ⟨text, hfind, rfl⟩ := Option.map_eq_some_iff.1 htext
  obtain ⟨d, hd, _⟩ := Option.map_eq_some_iff.1 hfind
  have hname : d.1 = name := by simpa using List.find?_some hd
  exact List.mem_map.2 ⟨d, List.mem_of_find?_eq_some hd, by simp [Buffer.id_ofString, hname]⟩

def library (s : Shelf) : Library :=
  .ofList s.resolve (s.documents.map fun d => ⟨d.1⟩) resolve_mem

end Shelf
end Sectioning
