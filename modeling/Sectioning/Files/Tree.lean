/-
A finite tree of files.

Every item stands at a list of names from the root.  A path is looked up one
segment after another: each segment needs a directory to be looked up in, two
dots lead to the directory above, and a single dot or nothing stays.  So
`missing/../a` leads nowhere, and a slash after the name of a file is an error.
There are no links.

A tree may have a limit on the length of paths.  A file cannot be opened by a path
beyond the limit, though the path may lead to it.  And a path has no canonical path
if one of the places on the way is too far from the root for that, though the file
may be opened.  Without a limit, a look-up is the walk along the segments and
nothing else.
-/
import Sectioning.Files.Disk
import Sectioning.Files.Path

namespace Sectioning

structure File where
  bytes : ByteArray
  /-- The time of the last write, in seconds. -/
  modified : Nat

namespace File

def text? (f : File) : Option String :=
  String.fromUTF8? f.bytes

end File

inductive Item where
  | file (f : File)
  | directory

structure FileTree where
  items : List (List String × Item)
  /-- Where relative paths start. -/
  workingDirectory : List String
  /-- The longest path that the system takes, in bytes, if there is one. -/
  pathLimit : Option Nat

namespace FileTree

/-- The longest name that a file system takes, in bytes. -/
def maxNameBytes : Nat := 255

/-- The usual limit on the length of paths, in bytes. -/
def maxPathBytes : Nat := 4095

def item? (t : FileTree) (place : List String) : Option Item :=
  if place = [] then some .directory else (t.items.find? fun i => i.1 == place).map (·.2)

/-- The place that one segment leads to from another place. -/
def step (t : FileTree) (place : List String) (s : String) : Except ReadFailure (List String) :=
  match t.item? place with
  | some .directory =>
    if s = "" ∨ s = "." then .ok place
    else if s = ".." then .ok place.dropLast
    else if maxNameBytes < s.utf8ByteSize then .error .nameTooLong
    else if (t.item? (place ++ [s])).isNone then .error .notFound
    else .ok (place ++ [s])
  | some (.file _) => .error .notDirectory
  | none => .error .notFound

/-- The place that the segments of a path lead to. -/
def walk (t : FileTree) : List String → List String → Except ReadFailure (List String)
  | [], place => .ok place
  | s :: rest, place =>
    match t.step place s with
    | .error failure => .error failure
    | .ok next => walk t rest next

/-- Where the look-up of a path begins. -/
def origin (t : FileTree) (path : String) : List String :=
  if Path.isAbsolute path then [] else t.workingDirectory

def locate (t : FileTree) (path : String) : Except ReadFailure (List String) :=
  if path = "" then .error .notFound else t.walk (Path.segments path) (t.origin path)

/-- Whether a path is within the limit. -/
def admits (t : FileTree) (path : String) : Bool :=
  t.pathLimit.all fun n => path.utf8ByteSize ≤ n

/-- The absolute path of a place. -/
def absolute (place : List String) : String :=
  "/" ++ "/".intercalate place

/-- The place that the segments of a path lead to, if the absolute paths of the
places that they lead down to are all within the limit. -/
def retrace? (t : FileTree) : List String → List String → Option (List String)
  | [], place => some place
  | s :: rest, place =>
    match t.step place s with
    | .error _ => none
    | .ok next =>
      if next.length ≤ place.length || t.admits (absolute next) then retrace? t rest next
      else none

def realPath? (t : FileTree) (path : String) : Option String :=
  if path = "" then none else (t.retrace? (Path.segments path) (t.origin path)).map absolute

/-- The place that a path leads to, if the path is not too long. -/
def reach (t : FileTree) (path : String) : Except ReadFailure (List String) :=
  if t.admits path then t.locate path else .error .nameTooLong

def file (t : FileTree) (path : String) : Except ReadFailure File :=
  match t.reach path with
  | .error failure => .error failure
  | .ok place =>
    match t.item? place with
    | some (.file f) => .ok f
    | some .directory => .error .isDirectory
    | none => .error .notFound

def isFile (t : FileTree) (path : String) : Bool :=
  (t.file path).isOk

def read (t : FileTree) (path : String) : Except ReadFailure String :=
  match t.file path with
  | .error failure => .error failure
  | .ok f =>
    match f.text? with
    | some text => .ok text
    | none => .error .notText

/-- The time of the last change at a path.  Directories count as unchanged. -/
def stamp? (t : FileTree) (path : String) : Option Nat :=
  match t.file path with
  | .ok f => some f.modified
  | .error .isDirectory => some 0
  | .error _ => none

/-! ## Changing a tree -/

def set (t : FileTree) (place : List String) (i : Item) : FileTree :=
  { t with items := (place, i) :: t.items.filter fun j => j.1 != place }

/-- Makes a directory at a place and on the whole way to it, where nothing stands
yet. -/
def makeDirectories (t : FileTree) (place : List String) : FileTree :=
  (List.range (place.length + 1)).foldl (fun t n =>
    if (t.item? (place.take n)).isNone then t.set (place.take n) .directory else t) t

/-- The tree that holds the working directory and nothing else, with the usual
limit. -/
def empty (workingDirectory : List String) : FileTree :=
  (FileTree.mk [] workingDirectory (some maxPathBytes)).makeDirectories workingDirectory

/-- The place of a path read without looking at the tree. -/
def placeOf (t : FileTree) (path : String) : List String :=
  (Path.components path).foldl (fun place c =>
    match c with
    | .root => []
    | .here => place
    | .up => place.dropLast
    | .name s => place ++ [s]) t.workingDirectory

/-- Writes a file, and makes the directories that it needs. -/
def write (t : FileTree) (path : String) (f : File) : FileTree :=
  let place := t.placeOf path
  (t.makeDirectories place.dropLast).set place (.file f)

def makeDirectory (t : FileTree) (path : String) : FileTree :=
  t.makeDirectories (t.placeOf path)

def remove (t : FileTree) (path : String) : FileTree :=
  let place := t.placeOf path
  { t with items := t.items.filter fun i => i.1 != place }

/-! ## As a disk -/

/-- The canonical paths of all files. -/
def files (t : FileTree) : List String :=
  t.items.filterMap fun i =>
    match i.2 with
    | .file _ => some (absolute i.1)
    | .directory => none

theorem mem_items_of_item? {t : FileTree} {place : List String} {i : Item}
    (h : t.item? place = some i) (hne : place ≠ []) : (place, i) ∈ t.items := by
  rw [item?, if_neg hne] at h
  obtain ⟨j, hfind, rfl⟩ := Option.map_eq_some_iff.1 h
  have hplace : j.1 = place := by simpa using List.find?_some hfind
  rw [← hplace]
  exact List.mem_of_find?_eq_some hfind

theorem ne_nil_of_file {t : FileTree} {place : List String} {f : File}
    (h : t.item? place = some (.file f)) : place ≠ [] := by
  intro hnil
  rw [item?, if_pos hnil] at h
  cases h

theorem absolute_mem_files {t : FileTree} {place : List String} {f : File}
    (h : t.item? place = some (.file f)) : absolute place ∈ t.files :=
  List.mem_filterMap.2 ⟨_, mem_items_of_item? h (ne_nil_of_file h), rfl⟩

/-! ### Files at paths -/

theorem reach_eq_ok_iff {t : FileTree} {path : String} {place : List String} :
    t.reach path = .ok place ↔ t.admits path = true ∧ t.locate path = .ok place := by
  unfold reach
  split
  · next h => simp [h]
  · next h => simp [h]

theorem file_eq_ok_iff {t : FileTree} {path : String} {f : File} :
    t.file path = .ok f ↔
      t.admits path = true ∧ ∃ place, t.locate path = .ok place ∧
        t.item? place = some (.file f) := by
  unfold file
  cases hreach : t.reach path with
  | error failure =>
    refine iff_of_false (fun h => by cases h) ?_
    rintro ⟨hfits, place, hloc, -⟩
    rw [reach_eq_ok_iff.2 ⟨hfits, hloc⟩] at hreach
    cases hreach
  | ok place =>
    obtain ⟨hfits, hloc⟩ := reach_eq_ok_iff.1 hreach
    simp only [hfits, hloc, true_and, Except.ok.injEq, exists_eq_left']
    cases t.item? place with
    | none => simp
    | some i => cases i <;> simp

theorem read_eq_ok_iff {t : FileTree} {path text : String} :
    t.read path = .ok text ↔ ∃ f, t.file path = .ok f ∧ f.text? = some text := by
  unfold read
  cases t.file path with
  | error failure => simp
  | ok f =>
    simp only [Except.ok.injEq, exists_eq_left']
    cases f.text? <;> simp

/-! ### Canonical paths -/

/-- One segment leads to the same place, to the one above or to an item below. -/
theorem step_cases {t : FileTree} {place q : List String} {s : String}
    (h : t.step place s = .ok q) :
    t.item? place = some .directory ∧
      ((s = "" ∨ s = ".") ∧ q = place ∨ s = ".." ∧ q = place.dropLast ∨
        ¬ (s = "" ∨ s = ".") ∧ q = place ++ [s] ∧ ∃ i, t.item? (place ++ [s]) = some i) := by
  unfold step at h
  split at h
  · next hdirectory =>
    refine ⟨hdirectory, ?_⟩
    split at h
    · next hfiller =>
      cases h
      exact .inl ⟨hfiller, rfl⟩
    · next hname =>
      split at h
      · next hup =>
        cases h
        exact .inr (.inl ⟨hup, rfl⟩)
      · split at h
        · cases h
        · split at h
          · cases h
          · next hsome =>
            cases h
            cases hitem : t.item? (place ++ [s]) with
            | none => simp [hitem] at hsome
            | some i => exact .inr (.inr ⟨hname, rfl, i, rfl⟩)
  · cases h
  · cases h

theorem walk_of_retrace? {t : FileTree} {a place q : List String}
    (h : t.retrace? a place = some q) : t.walk a place = .ok q := by
  induction a generalizing place with
  | nil =>
    cases h
    rfl
  | cons s a ih =>
    rw [retrace?] at h
    rw [walk]
    cases hstep : t.step place s with
    | error failure =>
      rw [hstep] at h
      cases h
    | ok next =>
      rw [hstep] at h
      simp only at h ⊢
      split at h
      · exact ih h
      · cases h

/-- The absolute paths of all items are within the limit. -/
def WithinLimit (t : FileTree) : Prop :=
  ∀ i ∈ t.items, t.admits (absolute i.1) = true

instance (t : FileTree) : Decidable t.WithinLimit :=
  inferInstanceAs (Decidable (∀ i ∈ t.items, t.admits (absolute i.1) = true))

theorem admits_of_unlimited {t : FileTree} (hlimit : t.pathLimit = none) (path : String) :
    t.admits path = true := by
  rw [admits, hlimit]
  rfl

theorem withinLimit_of_unlimited {t : FileTree} (hlimit : t.pathLimit = none) : t.WithinLimit :=
  fun i _ => admits_of_unlimited hlimit (absolute i.1)

theorem WithinLimit.step {t : FileTree} (ht : t.WithinLimit) {place next : List String}
    {s : String} (h : t.step place s = .ok next) :
    (next.length ≤ place.length || t.admits (absolute next)) = true := by
  obtain ⟨-, ⟨-, rfl⟩ | ⟨-, rfl⟩ | ⟨-, rfl, i, hitem⟩⟩ := step_cases h
  · simp
  · simp
  · have hadmits := ht _ (mem_items_of_item? hitem (by simp))
    simp [hadmits]

theorem WithinLimit.retrace?_of_walk {t : FileTree} (ht : t.WithinLimit)
    {a place q : List String} (h : t.walk a place = .ok q) : t.retrace? a place = some q := by
  induction a generalizing place with
  | nil =>
    cases h
    rfl
  | cons s a ih =>
    rw [walk] at h
    rw [retrace?]
    cases hstep : t.step place s with
    | error failure =>
      rw [hstep] at h
      cases h
    | ok next =>
      rw [hstep] at h
      simp only [ht.step hstep, if_true]
      exact ih h

/-- A canonical path is the absolute path of the place that the path leads to. -/
theorem realPath?_cases {t : FileTree} {path : String} {place : List String}
    (hloc : t.locate path = .ok place) :
    t.realPath? path = none ∨ t.realPath? path = some (absolute place) := by
  unfold locate at hloc
  unfold realPath?
  split at hloc
  · cases hloc
  · next hne =>
    rw [if_neg hne]
    cases hretrace : t.retrace? (Path.segments path) (t.origin path) with
    | none => exact .inl rfl
    | some q =>
      rw [walk_of_retrace? hretrace, Except.ok.injEq] at hloc
      rw [hloc]
      exact .inr rfl

theorem WithinLimit.realPath?_eq {t : FileTree} (ht : t.WithinLimit) {path : String}
    {place : List String} (hloc : t.locate path = .ok place) :
    t.realPath? path = some (absolute place) := by
  unfold locate at hloc
  unfold realPath?
  split at hloc
  · cases hloc
  · next hne =>
    rw [if_neg hne, ht.retrace?_of_walk hloc]
    rfl

theorem pathLimit_ne_none {t : FileTree} {path : String} {place : List String}
    (hloc : t.locate path = .ok place) (hnone : t.realPath? path = none) : t.pathLimit ≠ none := by
  intro hlimit
  rw [(withinLimit_of_unlimited hlimit).realPath?_eq hloc] at hnone
  cases hnone

/-! ### The number of names -/

/-- A bound on the names of files: their canonical paths, and all paths within the
limit. -/
def nameBound (t : FileTree) : Nat :=
  t.files.length + t.pathLimit.elim 0 Path.countWithin

/-- The paths within a limit can be listed. -/
theorem exists_admitted (t : FileTree) :
    ∃ paths : List String, paths.length = t.pathLimit.elim 0 Path.countWithin ∧
      (t.pathLimit ≠ none → ∀ path, t.admits path = true → path ∈ paths) := by
  cases hlimit : t.pathLimit with
  | none => exact ⟨[], rfl, fun h => absurd rfl h⟩
  | some n =>
    obtain ⟨paths, hlength, hpaths⟩ := Path.exists_paths n
    refine ⟨paths, hlength, fun _ path hadmits => hpaths path ?_⟩
    rw [admits, hlimit] at hadmits
    exact of_decide_eq_true hadmits

theorem length_le_nameBound {t : FileTree} {ids : List SourceId} (hnodup : ids.Nodup)
    (h : ∀ id ∈ ids, ∃ path text, t.read path = .ok text ∧
      id = ⟨(t.realPath? path).getD path⟩) : ids.length ≤ t.nameBound := by
  obtain ⟨paths, hlength, hpaths⟩ := t.exists_admitted
  have hsub : ids ⊆ (t.files ++ paths).map SourceId.mk := by
    intro id hid
    obtain ⟨path, text, hread, rfl⟩ := h id hid
    obtain ⟨f, hfile, -⟩ := read_eq_ok_iff.1 hread
    obtain ⟨hadmits, place, hloc, hitem⟩ := file_eq_ok_iff.1 hfile
    refine List.mem_map_of_mem (List.mem_append.2 ?_)
    rcases realPath?_cases hloc with hnone | hreal
    · have hlimit := pathLimit_ne_none hloc hnone
      rw [hnone]
      exact .inr (hpaths hlimit path hadmits)
    · rw [hreal]
      exact .inl (absolute_mem_files hitem)
  have hlen := List.Nodup.length_le_of_subset hnodup hsub
  rwa [List.length_map, List.length_append, hlength] at hlen

def disk (t : FileTree) : Disk :=
  ⟨t.isFile, t.read, t.realPath?, t.nameBound, length_le_nameBound⟩

end FileTree
end Sectioning
