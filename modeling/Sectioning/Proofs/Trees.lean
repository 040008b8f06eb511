/-
Looking paths up in a tree of files.

A walk along some segments goes on where the walk along the first of them ends
(`walk_append`), and fillers lead nowhere else.  So a name that is looked up in the
directory of a file is looked up from the place above that file, however the path
of the file is spelled (`Proper.locate_join`).
-/
import Sectioning.Files.Tree
import Sectioning.Proofs.Segments

namespace Sectioning

theorem toOption_congr {ε α : Type} {x y : Except ε α} (h : ∀ a, x = .ok a ↔ y = .ok a) :
    x.toOption = y.toOption := by
  cases x with
  | ok a => rw [(h a).1 rfl]
  | error e =>
    cases y with
    | ok a => exact absurd ((h a).2 rfl) (by simp)
    | error e' => rfl

def Item.ofText (text : String) : Item :=
  .file ⟨text.toUTF8, 0⟩

namespace FileTree

/-- The items of a tree form a tree: each has a name and stands in a directory. -/
structure Proper (t : FileTree) : Prop where
  names : ∀ i ∈ t.items, ∀ s ∈ i.1, s ≠ "" ∧ s ≠ "." ∧ s ≠ ".." ∧ '/' ∉ s.toList
  within : ∀ i ∈ t.items, t.item? i.1.dropLast = some .directory

section

variable {t : FileTree} {path path' name s : String} {a b place q : List String} {i : Item}
  {f f' : File}

/-! ## Items -/

theorem item?_nil (t : FileTree) : t.item? [] = some .directory :=
  if_pos rfl

theorem Proper.item?_dropLast (ht : t.Proper) (h : t.item? place = some i) :
    t.item? place.dropLast = some .directory := by
  by_cases hne : place = []
  · rw [hne]
    exact item?_nil t
  · exact ht.within _ (mem_items_of_item? h hne)

theorem segments_absolute (hne : place ≠ []) (h : ∀ s ∈ place, '/' ∉ s.toList) :
    Path.segments (absolute place) = "" :: place := by
  have habsolute : absolute place = "" ++ "/" ++ "/".intercalate place := by
    rw [absolute, String.empty_append]
  rw [habsolute, Path.segments_append, Path.segments_intercalate hne h]
  rfl

/-- Files at different places have different canonical paths. -/
theorem Proper.absolute_inj (ht : t.Proper) (h : t.item? place = some (.file f))
    (h' : t.item? q = some (.file f')) (heq : absolute place = absolute q) : place = q := by
  have hsegments : ∀ {place f}, t.item? place = some (.file f) →
      Path.segments (absolute place) = "" :: place := fun hitem =>
    segments_absolute (ne_nil_of_file hitem) fun s hs =>
      (ht.names _ (mem_items_of_item? hitem (ne_nil_of_file hitem)) s hs).2.2.2
  have hcons := hsegments h
  rw [heq, hsegments h'] at hcons
  exact (List.cons.inj hcons).2.symm

/-! ## Walks -/

theorem walk_append (t : FileTree) (a b place : List String) :
    t.walk (a ++ b) place = (t.walk a place).bind (t.walk b) := by
  induction a generalizing place with
  | nil => rfl
  | cons s a ih =>
    rw [List.cons_append, walk, walk]
    cases t.step place s with
    | error failure => rfl
    | ok next => exact ih next

theorem exists_of_walk_append (h : t.walk (a ++ b) place = .ok q) :
    ∃ middle, t.walk a place = .ok middle ∧ t.walk b middle = .ok q := by
  rw [walk_append] at h
  cases hmiddle : t.walk a place with
  | error failure =>
    rw [hmiddle] at h
    cases h
  | ok middle =>
    rw [hmiddle] at h
    exact ⟨middle, rfl, h⟩

theorem exists_of_walk_cons (h : t.walk (s :: a) place = .ok q) :
    ∃ next, t.step place s = .ok next ∧ t.walk a next = .ok q := by
  rw [walk] at h
  cases hstep : t.step place s with
  | error failure =>
    rw [hstep] at h
    cases h
  | ok next =>
    rw [hstep] at h
    exact ⟨next, rfl, h⟩

theorem walk_fillers (hfillers : ∀ s ∈ a, Path.isFiller s = true) (h : t.walk a place = .ok q) :
    q = place := by
  induction a generalizing place with
  | nil =>
    cases h
    rfl
  | cons s a ih =>
    obtain ⟨next, hs, ha⟩ := exists_of_walk_cons h
    have hnext := ih (fun x hx => hfillers x (List.mem_cons_of_mem s hx)) ha
    have hfiller := Path.isFiller_iff.1 (hfillers s List.mem_cons_self)
    obtain ⟨-, ⟨-, rfl⟩ | ⟨rfl, -⟩ | ⟨hname, -⟩⟩ := step_cases hs
    · exact hnext
    · exact absurd hfiller (by decide)
    · exact absurd hfiller hname

/-- A walk along names goes down, if it gets anywhere. -/
theorem walk_names (hnames : ∀ s ∈ a, s ≠ "" ∧ s ≠ "." ∧ s ≠ "..") (h : t.walk a place = .ok q) :
    q = place ++ a := by
  induction a generalizing place with
  | nil =>
    cases h
    exact (List.append_nil _).symm
  | cons s a ih =>
    obtain ⟨next, hs, ha⟩ := exists_of_walk_cons h
    have hnext := ih (fun x hx => hnames x (List.mem_cons_of_mem s hx)) ha
    obtain ⟨hempty, hdot, hup⟩ := hnames s List.mem_cons_self
    obtain ⟨-, ⟨hfiller, -⟩ | ⟨hs, -⟩ | ⟨-, rfl, -⟩⟩ := step_cases hs
    · exact absurd hfiller (not_or.2 ⟨hempty, hdot⟩)
    · exact absurd hs hup
    · rw [hnext, List.append_assoc]
      rfl

/-! ## Look-ups in the directory of a file -/

theorem locate_eq (h : path ≠ "") : t.locate path = t.walk (Path.segments path) (t.origin path) :=
  if_neg h

/-- The path of a file ends in its name, and what stands before the name leads to
the place above the file. -/
theorem Proper.exists_name (ht : t.Proper) (hloc : t.locate path = .ok place)
    (hfile : t.item? place = some (.file f)) :
    ∃ before s, Path.segments path = before ++ [s] ∧ Path.isFiller s = false ∧
      t.walk before (t.origin path) = .ok place.dropLast := by
  have hne : path ≠ "" := by
    rintro rfl
    cases hloc
  rw [locate_eq hne] at hloc
  obtain ⟨before, s, hsegments⟩ : ∃ before s, Path.segments path = before ++ [s] := by
    rcases List.eq_nil_or_concat (Path.segments path) with hnil | ⟨before, s, hconcat⟩
    · exact absurd hnil (Path.segments_ne_nil path)
    · exact ⟨before, s, hconcat.trans List.concat_eq_append⟩
  rw [hsegments] at hloc
  obtain ⟨middle, hbefore, hlast⟩ := exists_of_walk_append hloc
  obtain ⟨next, hstep, hnext⟩ := exists_of_walk_cons hlast
  cases hnext
  obtain ⟨hdirectory, hplace⟩ := step_cases hstep
  -- only a step down can end at a file
  rcases hplace with ⟨-, rfl⟩ | ⟨-, rfl⟩ | ⟨hname, rfl, -⟩
  · rw [hdirectory] at hfile
    cases hfile
  · rw [ht.item?_dropLast hdirectory] at hfile
    cases hfile
  · refine ⟨before, s, hsegments, Bool.eq_false_iff.2 (mt Path.isFiller_iff.1 hname), ?_⟩
    rw [List.dropLast_concat]
    exact hbefore

theorem Proper.locate_join (ht : t.Proper) (hloc : t.locate path = .ok place)
    (hfile : t.item? place = some (.file f)) (hne : name ≠ "")
    (hname : Path.isAbsolute name = false) :
    t.locate (Path.join (Search.directoryOf path) name) =
      t.walk (Path.segments name) place.dropLast := by
  obtain ⟨before, s, hsegments, hs, hbefore⟩ := ht.exists_name hloc hfile
  cases before with
  | nil =>
    have hrelative : Path.isAbsolute path = false := by
      rw [Bool.eq_false_iff, Ne, Path.isAbsolute_iff hsegments]
      exact fun h => h.2 rfl
    have hjoin : Path.join (Search.directoryOf path) name = name := by
      rw [Path.directoryOf_of_singleton hsegments hs]
      simp [Path.join]
    have hplace : t.origin path = place.dropLast := Except.ok.inj hbefore
    rw [hjoin, locate_eq hne, ← hplace, origin, origin, hrelative, hname]
  | cons first rest =>
    have hjoin := Path.segments_join_directoryOf hsegments hs hname
    have hlong : Path.segments name ≠ [] := Path.segments_ne_nil name
    have hne' : Path.join (Search.directoryOf path) name ≠ "" := by
      intro hempty
      rw [hempty, Path.segments_of_notMem (by simp)] at hjoin
      simp [hlong] at hjoin
    have horigin : t.origin (Path.join (Search.directoryOf path) name) = t.origin path := by
      have habsolute : Path.isAbsolute (Path.join (Search.directoryOf path) name) =
          Path.isAbsolute path := by
        rw [Bool.eq_iff_iff, Path.isAbsolute_iff hjoin, Path.isAbsolute_iff hsegments]
        simp [hlong]
      rw [origin, origin, habsolute]
    obtain ⟨fillers, hfillers, hall⟩ := Path.exists_dropFillers rest
    rw [hfillers, ← List.cons_append] at hbefore
    obtain ⟨middle, hkept, hrest⟩ := exists_of_walk_append hbefore
    rw [← walk_fillers hall hrest] at hkept
    rw [locate_eq hne', horigin, hjoin, ← List.cons_append, walk_append, hkept]
    rfl

theorem Proper.locate_join_eq (ht : t.Proper) (hloc : t.locate path = .ok place)
    (hloc' : t.locate path' = .ok place) (hfile : t.item? place = some (.file f))
    (hne : name ≠ "") :
    t.locate (Path.join (Search.directoryOf path') name) =
      t.locate (Path.join (Search.directoryOf path) name) := by
  cases hname : Path.isAbsolute name with
  | true => simp [Path.join, hname]
  | false => rw [ht.locate_join hloc hfile hne hname, ht.locate_join hloc' hfile hne hname]

/-- The canonical path of a file leads to that file, if it leads anywhere. -/
theorem Proper.eq_of_locate_absolute (ht : t.Proper) (hfile : t.item? place = some (.file f))
    (hloc : t.locate (absolute place) = .ok q) : q = place := by
  have hne := ne_nil_of_file hfile
  have hnames := ht.names _ (mem_items_of_item? hfile hne)
  have hsegments := segments_absolute hne fun s hs => (hnames s hs).2.2.2
  have habsolute : Path.isAbsolute (absolute place) = true :=
    (Path.isAbsolute_iff hsegments).2 ⟨rfl, hne⟩
  have hpath : absolute place ≠ "" := by
    intro hempty
    rw [hempty] at habsolute
    cases habsolute
  rw [locate_eq hpath, hsegments, origin, habsolute, if_pos rfl] at hloc
  obtain ⟨next, hroot, hwalk⟩ := exists_of_walk_cons hloc
  have hnext : next = [] := by
    obtain ⟨-, ⟨-, hq⟩ | ⟨hup, -⟩ | ⟨hname, -⟩⟩ := step_cases hroot
    · exact hq
    · exact absurd hup (by decide)
    · exact absurd (.inl rfl) hname
  rw [hnext] at hwalk
  exact walk_names (fun s hs => ⟨(hnames s hs).1, (hnames s hs).2.1, (hnames s hs).2.2.1⟩) hwalk

/-! ## Files at paths -/

/-- The path leads to a file, whether or not it can be opened. -/
def LeadsToFile (t : FileTree) (path : String) : Prop :=
  ∃ place f, t.locate path = .ok place ∧ t.item? place = some (.file f)

theorem isFile_iff : t.isFile path = true ↔ t.admits path = true ∧ t.LeadsToFile path := by
  rw [isFile]
  constructor
  · intro h
    cases hfile : t.file path with
    | error failure =>
      rw [hfile] at h
      cases h
    | ok f =>
      obtain ⟨hfits, place, hloc, hitem⟩ := file_eq_ok_iff.1 hfile
      exact ⟨hfits, place, f, hloc, hitem⟩
  · rintro ⟨hfits, place, f, hloc, hitem⟩
    rw [file_eq_ok_iff.2 ⟨hfits, place, hloc, hitem⟩]
    rfl

/-- What it takes to open a file as a document. -/
theorem openBuffer_eq_ok_iff {b : Buffer} :
    t.disk.openBuffer path = .ok b ↔
      ∃ place f text, t.admits path = true ∧ t.locate path = .ok place ∧
        t.item? place = some (.file f) ∧ f.text? = some text ∧
        b = .ofString (t.disk.sourceId path) text := by
  rw [Disk.openBuffer_eq_ok_iff]
  constructor
  · rintro ⟨text, hread, rfl⟩
    obtain ⟨f, hfile, htext⟩ := read_eq_ok_iff.1 hread
    obtain ⟨hfits, place, hloc, hitem⟩ := file_eq_ok_iff.1 hfile
    exact ⟨place, f, text, hfits, hloc, hitem, htext, rfl⟩
  · rintro ⟨place, f, text, hfits, hloc, hitem, htext, rfl⟩
    exact ⟨text, read_eq_ok_iff.2 ⟨f, file_eq_ok_iff.2 ⟨hfits, place, hloc, hitem⟩, htext⟩, rfl⟩

/-! ## The names of files -/

/-- A file goes by its canonical path or by the path that it was found by. -/
theorem sourceId_cases (hloc : t.locate path = .ok place) :
    t.disk.sourceId path = ⟨absolute place⟩ ∨ t.disk.sourceId path = ⟨path⟩ := by
  change SourceId.mk ((t.realPath? path).getD path) = _ ∨
    SourceId.mk ((t.realPath? path).getD path) = _
  rcases realPath?_cases hloc with hnone | hsome
  · rw [hnone]
    exact .inr rfl
  · rw [hsome]
    exact .inl rfl

theorem WithinLimit.sourceId_eq (ht : t.WithinLimit) (hloc : t.locate path = .ok place) :
    t.disk.sourceId path = ⟨absolute place⟩ := by
  change SourceId.mk ((t.realPath? path).getD path) = _
  rw [ht.realPath?_eq hloc]
  rfl

end
end FileTree
end Sectioning
