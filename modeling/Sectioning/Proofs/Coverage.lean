/-
The files that decide a build are watched, if all of them hold text.

An inclusion is decided by the first path with a file at it.  If that file holds
text, it is listed among the documents that were read, and so it is watched.  If it
does not, nothing is found and nothing is listed, though other contents of the file
would have given another build.  So the watched files cover the build exactly if no
inclusion leads to a file without text (`covers_iff`).

A file is watched by its canonical path.  One that has none, because of a limit on
paths, is watched by the path that it was found by, and `Watches` allows for both.
-/
import Sectioning.Proofs.Agreement
import Sectioning.Proofs.Trees

namespace Sectioning

def Item.isFile : Item → Bool
  | file _ => true
  | directory => false

namespace FileTree

def bytes? (t : FileTree) (place : List String) : Option ByteArray :=
  match t.item? place with
  | some (.file f) => some f.bytes
  | _ => none

def text? (t : FileTree) (place : List String) : Option String :=
  (t.bytes? place).bind String.fromUTF8?

/-- The second tree has the files and directories of the first.  Only the contents
of files may be others. -/
structure Rewrites (t t' : FileTree) : Prop where
  workingDirectory_eq : t'.workingDirectory = t.workingDirectory
  pathLimit_eq : t'.pathLimit = t.pathLimit
  isFile_eq : ∀ place, (t'.item? place).map Item.isFile = (t.item? place).map Item.isFile

section

variable {t t' : FileTree} {path : String} {place q : List String} {b : Buffer} {f : File}

theorem text?_of_file (h : t.item? place = some (.file f)) : t.text? place = f.text? := by
  rw [text?, bytes?, h]
  rfl

theorem text?_eq_some_iff {text : String} :
    t.text? place = some text ↔
      ∃ f, t.item? place = some (.file f) ∧ f.text? = some text := by
  constructor
  · intro h
    obtain ⟨bytes, hbytes, -⟩ := Option.bind_eq_some_iff.1 h
    unfold bytes? at hbytes
    split at hbytes
    · next f hitem => exact ⟨f, hitem, (text?_of_file hitem).symm.trans h⟩
    · cases hbytes
  · rintro ⟨f, hitem, htext⟩
    rw [text?_of_file hitem, htext]

theorem openBuffer_eq_ok_iff_text :
    t.disk.openBuffer path = .ok b ↔
      ∃ place text, t.admits path = true ∧ t.locate path = .ok place ∧ t.text? place = some text ∧
        b = .ofString (t.disk.sourceId path) text := by
  rw [openBuffer_eq_ok_iff]
  constructor
  · rintro ⟨place, f, text, hfits, hloc, hitem, htext, hb⟩
    exact ⟨place, text, hfits, hloc, text?_eq_some_iff.2 ⟨f, hitem, htext⟩, hb⟩
  · rintro ⟨place, text, hfits, hloc, htext, hb⟩
    obtain ⟨f, hitem, htext⟩ := text?_eq_some_iff.1 htext
    exact ⟨place, f, text, hfits, hloc, hitem, htext, hb⟩

/-! ## Rewritten trees -/

namespace Rewrites

variable (h : t.Rewrites t')

include h

theorem item?_cases (place : List String) :
    (t.item? place = none ∧ t'.item? place = none) ∨
    (t.item? place = some .directory ∧ t'.item? place = some .directory) ∨
    ∃ f f', t.item? place = some (.file f) ∧ t'.item? place = some (.file f') := by
  have hkind := h.isFile_eq place
  cases hitem : t.item? place with
  | none =>
    rw [hitem, Option.map_none, Option.map_eq_none_iff] at hkind
    exact .inl ⟨rfl, hkind⟩
  | some i =>
    rw [hitem, Option.map_some, Option.map_eq_some_iff] at hkind
    obtain ⟨i', hitem', hsame⟩ := hkind
    cases i <;> cases i' <;> simp_all [Item.isFile]

theorem step_eq (place : List String) (s : String) : t'.step place s = t.step place s := by
  have hnone : (t'.item? (place ++ [s])).isNone = (t.item? (place ++ [s])).isNone := by
    rcases h.item?_cases (place ++ [s]) with ⟨h₁, h₂⟩ | ⟨h₁, h₂⟩ | ⟨f, f', h₁, h₂⟩ <;> rw [h₁, h₂]
    rfl
  rcases h.item?_cases place with ⟨h₁, h₂⟩ | ⟨h₁, h₂⟩ | ⟨f, f', h₁, h₂⟩
  · rw [step, step, h₁, h₂]
  · rw [step, step, h₁, h₂, hnone]
  · rw [step, step, h₁, h₂]

theorem walk_eq (a place : List String) : t'.walk a place = t.walk a place := by
  induction a generalizing place with
  | nil => rfl
  | cons s a ih => simp only [walk, h.step_eq, ih]

theorem origin_eq (path : String) : t'.origin path = t.origin path := by
  rw [origin, origin, h.workingDirectory_eq]

theorem admits_eq (path : String) : t'.admits path = t.admits path := by
  rw [admits, admits, h.pathLimit_eq]

theorem retrace?_eq (a place : List String) : t'.retrace? a place = t.retrace? a place := by
  induction a generalizing place with
  | nil => rfl
  | cons s a ih => simp only [retrace?, h.step_eq, h.admits_eq, ih]

theorem locate_eq (path : String) : t'.locate path = t.locate path := by
  rw [locate, locate, h.walk_eq, h.origin_eq]

/-- Files keep their names. -/
theorem sourceId_eq (path : String) : t'.disk.sourceId path = t.disk.sourceId path := by
  change SourceId.mk ((t'.realPath? path).getD path) = ⟨(t.realPath? path).getD path⟩
  rw [realPath?, realPath?, h.retrace?_eq, h.origin_eq]

theorem leadsToFile_iff (path : String) : t'.LeadsToFile path ↔ t.LeadsToFile path := by
  unfold LeadsToFile
  rw [h.locate_eq]
  refine exists_congr fun place => ?_
  rcases h.item?_cases place with ⟨h₁, h₂⟩ | ⟨h₁, h₂⟩ | ⟨f, f', h₁, h₂⟩ <;> simp [h₁, h₂]

theorem isFile_fun_eq : t'.isFile = t.isFile := by
  funext path
  rw [Bool.eq_iff_iff, isFile_iff, isFile_iff, h.leadsToFile_iff, h.admits_eq]

/-- Only files have contents that can be others. -/
theorem exists_file_of_bytes?_ne {place : List String} (hne : t'.bytes? place ≠ t.bytes? place) :
    ∃ f, t.item? place = some (.file f) := by
  rcases h.item?_cases place with ⟨h₁, h₂⟩ | ⟨h₁, h₂⟩ | ⟨f, f', h₁, h₂⟩
  · exact absurd (by rw [bytes?, bytes?, h₁, h₂]) hne
  · exact absurd (by rw [bytes?, bytes?, h₁, h₂]) hne
  · exact ⟨f, h₁⟩

end Rewrites

/-! ## One rewritten file -/

theorem item?_set (hne : place ≠ []) (i : Item) (q : List String) :
    (t.set place i).item? q = if q = place then some i else t.item? q := by
  by_cases hq : q = place
  · rw [if_pos hq, hq, item?, if_neg hne, set, List.find?_cons_of_pos (by simp)]
    rfl
  · have hpast : (t.set place i).items.find? (·.1 == q) = t.items.find? (·.1 == q) := by
      rw [set, List.find?_cons_of_neg (by simpa using Ne.symm hq), List.find?_filter]
      congr 1
      funext j
      by_cases hj : j.1 = q <;> simp [hj, hq]
    rw [if_neg hq, item?, item?, hpast]

theorem rewrites_set (hfile : t.item? place = some (.file f)) (f' : File) :
    t.Rewrites (t.set place (.file f')) where
  workingDirectory_eq := rfl
  pathLimit_eq := rfl
  isFile_eq q := by
    rw [item?_set (ne_nil_of_file hfile)]
    split
    · next hq =>
      rw [hq, hfile]
      rfl
    · rfl

theorem bytes?_set (hne : place ≠ []) (f' : File) (q : List String) :
    (t.set place (.file f')).bytes? q = if q = place then some f'.bytes else t.bytes? q := by
  rw [bytes?, item?_set hne]
  by_cases hq : q = place
  · rw [if_pos hq, if_pos hq]
  · rw [if_neg hq, if_neg hq, bytes?]

theorem text?_set (hne : place ≠ []) (f' : File) (q : List String) :
    (t.set place (.file f')).text? q = if q = place then f'.text? else t.text? q := by
  rw [text?, bytes?_set hne]
  split <;> rfl

end
end FileTree

theorem Build.mem_watchedPaths {b : Build} {path : String} :
    path ∈ b.watchedPaths ↔ ⟨path⟩ ∈ b.sources := by
  rw [watchedPaths, List.mem_map]
  constructor
  · rintro ⟨id, hid, rfl⟩
    exact hid
  · exact fun h => ⟨_, h, rfl⟩

namespace Project

open Build

/-- The first path with a file at it leads to the place. -/
def DecidedBy (p : Project) (t : FileTree) (target : String) (asker : SourceId)
    (place : List String) : Prop :=
  ∃ path, ((p.search t.disk).candidates target asker).find? t.isFile = some path ∧
    t.locate path = .ok place

/-- The build comes upon an inclusion that is decided by the file at a place, and
that file holds no text. -/
def StumblesOn (p : Project) (t : FileTree) (place : List String) : Prop :=
  ∃ root c i, t.disk.openBuffer p.path = .ok root ∧
    Reached (p.search t.disk).resolve p.follow root c ∧ p.follow = true ∧
    .inclusion i ∈ c.buffer.entries ∧ p.DecidedBy t i.path c.buffer.id place ∧
    t.text? place = none

section

variable {p : Project} {t t' : FileTree} {target : String} {asker : SourceId}
  {place : List String} {b : Build} {root buffer : Buffer}

theorem DecidedBy.exists_file (h : p.DecidedBy t target asker place) :
    ∃ f, t.item? place = some (.file f) := by
  obtain ⟨path, hfind, hloc⟩ := h
  obtain ⟨-, place', f, hloc', hitem⟩ := FileTree.isFile_iff.1 (List.find?_some hfind)
  rw [hloc, Except.ok.injEq] at hloc'
  rw [← hloc'] at hitem
  exact ⟨f, hitem⟩

/-- An inclusion leads to the document in the file that decides it. -/
theorem resolve_eq_some_iff :
    (p.search t.disk).resolve target asker = some buffer ↔
      ∃ path place text,
        ((p.search t.disk).candidates target asker).find? t.isFile = some path ∧
        t.locate path = .ok place ∧ t.text? place = some text ∧
        buffer = .ofString (t.disk.sourceId path) text := by
  have hopen : ∀ path, (t.disk.openBuffer path).toOption = some buffer ↔
      t.disk.openBuffer path = .ok buffer := fun path => by
    cases t.disk.openBuffer path <;> simp [Except.toOption]
  change (List.find? t.isFile _).bind (fun path => (t.disk.openBuffer path).toOption) = _ ↔ _
  simp only [Option.bind_eq_some_iff, hopen, FileTree.openBuffer_eq_ok_iff_text]
  constructor
  · rintro ⟨path, hfind, place, text, -, hrest⟩
    exact ⟨path, place, text, hfind, hrest⟩
  · rintro ⟨path, place, text, hfind, hrest⟩
    have hfits := (FileTree.isFile_iff.1 (List.find?_some hfind)).1
    exact ⟨path, hfind, place, text, hfits, hrest⟩

theorem find?_candidates_of_rewrites (h : t.Rewrites t') :
    ((p.search t'.disk).candidates target asker).find? t'.isFile =
      ((p.search t.disk).candidates target asker).find? t.isFile := by
  rw [h.isFile_fun_eq]
  rfl

/-- If the file that decides an inclusion keeps its text, the inclusion leads to the
same document. -/
theorem resolve_eq_of_rewrites (h : t.Rewrites t')
    (htext : ∀ place, p.DecidedBy t target asker place → t'.text? place = t.text? place) :
    (p.search t'.disk).resolve target asker = (p.search t.disk).resolve target asker := by
  refine Option.ext fun buffer => ?_
  simp only [resolve_eq_some_iff, find?_candidates_of_rewrites h, h.locate_eq, h.sourceId_eq]
  refine exists_congr fun path => exists_congr fun place => exists_congr fun text => ?_
  refine and_congr_right fun hfind => and_congr_right fun hloc => ?_
  rw [htext place ⟨path, hfind, hloc⟩]

/-- All that a build lists are files with text. -/
theorem exists_text_of_mem_sources (h : p.build t.disk = .ok b) {id : SourceId}
    (hid : id ∈ b.sources) :
    ∃ path place text, t.locate path = .ok place ∧ t.text? place = some text ∧
      id = t.disk.sourceId path := by
  obtain ⟨root, hroot, -⟩ := build_eq_ok_iff.1 h
  rcases (mem_sources_iff h hroot).1 hid with rfl | ⟨c, -, e, -, i, buffer, -, htarget, rfl⟩
  · obtain ⟨place, text, -, hloc, htext, rfl⟩ := FileTree.openBuffer_eq_ok_iff_text.1 hroot
    exact ⟨p.path, place, text, hloc, htext, rfl⟩
  · obtain ⟨-, hresolve⟩ := target?_eq_some_iff.1 htarget
    obtain ⟨path, place, text, -, hloc, htext, rfl⟩ := resolve_eq_some_iff.1 hresolve
    exact ⟨path, place, text, hloc, htext, rfl⟩

theorem mem_sources_of_resolve (h : p.build t.disk = .ok b)
    (hroot : t.disk.openBuffer p.path = .ok root) {c : Call} {i : Inclusion}
    (hc : Reached (p.search t.disk).resolve p.follow root c) (hi : .inclusion i ∈ c.buffer.entries)
    (hfollow : p.follow = true)
    (hresolve : (p.search t.disk).resolve i.path c.buffer.id = some buffer) :
    buffer.id ∈ b.sources :=
  (mem_sources_iff h hroot).2 <| .inr
    ⟨c, hc, _, hi, i, buffer, rfl, target?_eq_some_iff.2 ⟨hfollow, hresolve⟩, rfl⟩

end

/-- A watched path is the absolute path of the place or leads there. -/
def Watches (t : FileTree) (b : Build) (place : List String) : Prop :=
  ∃ path ∈ b.watchedPaths, path = FileTree.absolute place ∨ t.locate path = .ok place

/-- Any rewriting that gives another build rewrites one of the files. -/
def Covers (p : Project) (t : FileTree) (b : Build) (files : List String → Prop) : Prop :=
  ∀ t', t.Rewrites t' → p.build t'.disk ≠ .ok b →
    ∃ place, t'.bytes? place ≠ t.bytes? place ∧ files place

section

variable {p : Project} {t t' : FileTree} {place : List String} {b : Build}

theorem watches_of_mem_sources {path : String} (hmem : t.disk.sourceId path ∈ b.sources)
    (hloc : t.locate path = .ok place) : Watches t b place := by
  rcases FileTree.sourceId_cases hloc with hid | hid
  · rw [hid] at hmem
    exact ⟨_, mem_watchedPaths.2 hmem, .inl rfl⟩
  · rw [hid] at hmem
    exact ⟨path, mem_watchedPaths.2 hmem, .inr hloc⟩

/-- A place that is watched holds the text of a document that was read. -/
theorem exists_text_of_watches (ht : t.Proper) (h : p.build t.disk = .ok b) {f : File}
    (hfile : t.item? place = some (.file f)) (hwatches : Watches t b place) :
    ∃ path text, t.locate path = .ok place ∧ t.text? place = some text ∧
      t.disk.sourceId path ∈ b.sources := by
  obtain ⟨watched, hmem, hplace⟩ := hwatches
  have hsource := mem_watchedPaths.1 hmem
  obtain ⟨path, q, text, hloc, htext, hid⟩ := exists_text_of_mem_sources h hsource
  obtain ⟨f', hfile', -⟩ := FileTree.text?_eq_some_iff.1 htext
  -- both the place and `q` go by the watched path
  have hq : q = place := by
    rcases FileTree.sourceId_cases hloc with hname | hname
    · have heq : watched = FileTree.absolute q := congrArg SourceId.name (hid.trans hname)
      rcases hplace with habsolute | hlead
      · exact ht.absolute_inj hfile' hfile (heq.symm.trans habsolute)
      · rw [heq] at hlead
        exact (ht.eq_of_locate_absolute hfile' hlead).symm
    · have heq : watched = path := congrArg SourceId.name (hid.trans hname)
      rw [← heq] at hloc
      rcases hplace with habsolute | hlead
      · rw [habsolute] at hloc
        exact ht.eq_of_locate_absolute hfile hloc
      · rw [hlead] at hloc
        exact (Except.ok.inj hloc).symm
  rw [hid] at hsource
  exact ⟨path, text, hq ▸ hloc, hq ▸ htext, hsource⟩

/-- Without files that hold no text, the build depends on the watched files only. -/
theorem build_eq_ok_of_watches (h : p.build t.disk = .ok b) (hno : ∀ place, ¬ p.StumblesOn t place)
    (ht' : t.Rewrites t')
    (hwatched : ∀ place, Watches t b place → t'.text? place = t.text? place) :
    p.build t'.disk = .ok b := by
  obtain ⟨root, hroot, -⟩ := build_eq_ok_iff.1 h
  have hroot' : t'.disk.openBuffer p.path = .ok root := by
    have hmem : root.id ∈ b.sources := (mem_sources_iff h hroot).2 (.inl rfl)
    obtain ⟨place, text, hfits, hloc, htext, rfl⟩ := FileTree.openBuffer_eq_ok_iff_text.1 hroot
    refine FileTree.openBuffer_eq_ok_iff_text.2 ⟨place, text, ?_, ?_, ?_, ?_⟩
    · rw [ht'.admits_eq, hfits]
    · rw [ht'.locate_eq, hloc]
    · rw [hwatched place (watches_of_mem_sources hmem hloc), htext]
    · rw [ht'.sourceId_eq]
  refine build_eq_ok_of_reached h hroot hroot' rfl fun c i hc hi hfollow => ?_
  refine resolve_eq_of_rewrites ht' fun place hdecided => hwatched place ?_
  cases htext : t.text? place with
  | none => exact absurd ⟨root, c, i, hroot, hc, hfollow, hi, hdecided, htext⟩ (hno place)
  | some text =>
    obtain ⟨path, hfind, hloc⟩ := hdecided
    have hresolve := resolve_eq_some_iff.2 ⟨path, place, text, hfind, hloc, htext, rfl⟩
    exact watches_of_mem_sources (mem_sources_of_resolve h hroot hc hi hfollow hresolve) hloc

/-- A file without text is not watched. -/
theorem StumblesOn.not_watches (ht : t.Proper) (h : p.build t.disk = .ok b)
    (hplace : p.StumblesOn t place) : ¬ Watches t b place := by
  obtain ⟨_, _, _, -, -, -, -, hdecided, hno⟩ := hplace
  intro hwatches
  obtain ⟨f, hfile⟩ := hdecided.exists_file
  obtain ⟨_, text, -, htext, -⟩ := exists_text_of_watches ht h hfile hwatches
  rw [hno] at htext
  cases htext

/-- With any text in its place it would be watched. -/
theorem StumblesOn.watches_set {text : String} {f : File} (hplace : p.StumblesOn t place)
    (htext : f.text? = some text) (h : p.build (t.set place (.file f)).disk = .ok b) :
    Watches t b place := by
  obtain ⟨root, c, i, hroot, hc, hfollow, hi, hdecided, hno⟩ := hplace
  obtain ⟨f₀, hfile⟩ := hdecided.exists_file
  have hset := FileTree.text?_set (t := t) (FileTree.ne_nil_of_file hfile) f
  have hrewrites := FileTree.rewrites_set hfile f
  -- the files with text are other ones, and they stay
  have hkept : ∀ {q text'}, t.text? q = some text' →
      (t.set place (.file f)).text? q = some text' := by
    intro q text' htext'
    rw [hset, if_neg, htext']
    rintro rfl
    rw [hno] at htext'
    cases htext'
  have hroot' : (t.set place (.file f)).disk.openBuffer p.path = .ok root := by
    obtain ⟨q, text', hfits, hloc, htext', hb⟩ := FileTree.openBuffer_eq_ok_iff_text.1 hroot
    refine FileTree.openBuffer_eq_ok_iff_text.2 ⟨q, text', hfits, ?_, hkept htext', ?_⟩
    · rw [hrewrites.locate_eq, hloc]
    · rw [hrewrites.sourceId_eq, hb]
  have hc' : Reached (p.search (t.set place (.file f)).disk).resolve p.follow root c := by
    refine hc.mono fun hresolve => ?_
    obtain ⟨path, q, text', hfind, hloc, htext', hb⟩ := resolve_eq_some_iff.1 hresolve
    refine resolve_eq_some_iff.2 ⟨path, q, text', ?_, ?_, hkept htext', ?_⟩
    · rw [find?_candidates_of_rewrites hrewrites, hfind]
    · rw [hrewrites.locate_eq, hloc]
    · rw [hrewrites.sourceId_eq, hb]
  obtain ⟨path, hfind, hloc⟩ := hdecided
  have hresolve : (p.search (t.set place (.file f)).disk).resolve i.path c.buffer.id =
      some (.ofString (t.disk.sourceId path) text) := by
    refine resolve_eq_some_iff.2 ⟨path, place, text, ?_, ?_, ?_, ?_⟩
    · rw [find?_candidates_of_rewrites hrewrites, hfind]
    · rw [hrewrites.locate_eq, hloc]
    · rw [hset, if_pos rfl, htext]
    · rw [hrewrites.sourceId_eq]
  exact watches_of_mem_sources (mem_sources_of_resolve h hroot' hc' hi hfollow hresolve) hloc

theorem covers_watches_iff (ht : t.Proper) (h : p.build t.disk = .ok b) :
    p.Covers t b (Watches t b) ↔ ∀ place, ¬ p.StumblesOn t place := by
  constructor
  · intro hcovers place hplace
    have hunwatched := hplace.not_watches ht h
    obtain ⟨f, hfile⟩ : ∃ f, t.item? place = some (.file f) := by
      obtain ⟨_, _, _, -, -, -, -, hdecided, -⟩ := hplace
      exact hdecided.exists_file
    -- an empty text in its place is enough
    have htext : (File.mk "".toUTF8 0).text? = some "" := by decide +kernel
    obtain ⟨q, hchanged, hq⟩ := hcovers _ (FileTree.rewrites_set hfile ⟨"".toUTF8, 0⟩) fun h' =>
      hunwatched (hplace.watches_set htext h')
    rw [FileTree.bytes?_set (FileTree.ne_nil_of_file hfile)] at hchanged
    split at hchanged
    · next hsame =>
      rw [hsame] at hq
      exact hunwatched hq
    · exact hchanged rfl
  · intro hno t' ht' hne
    by_contra hall
    refine hne (build_eq_ok_of_watches h hno ht' fun place hplace => ?_)
    have hbytes : t'.bytes? place = t.bytes? place := by
      by_contra hchanged
      exact hall ⟨place, hchanged, hplace⟩
    rw [FileTree.text?, hbytes, FileTree.text?]

/-- Within the limit on paths, a file is watched by its absolute path. -/
theorem watches_iff_of_withinLimit (ht : t.Proper) (hlimit : t.WithinLimit)
    (h : p.build t.disk = .ok b) {f : File} (hfile : t.item? place = some (.file f)) :
    Watches t b place ↔ FileTree.absolute place ∈ b.watchedPaths := by
  constructor
  · intro hwatches
    obtain ⟨path, _, hloc, -, hmem⟩ := exists_text_of_watches ht h hfile hwatches
    rw [hlimit.sourceId_eq hloc] at hmem
    exact mem_watchedPaths.2 hmem
  · exact fun hmem => ⟨_, hmem, .inl rfl⟩

theorem covers_congr {files files' : List String → Prop}
    (h : ∀ place f, t.item? place = some (.file f) → (files place ↔ files' place)) :
    p.Covers t b files ↔ p.Covers t b files' := by
  refine forall_congr' fun t' => forall_congr' fun ht' => forall_congr' fun _ =>
    exists_congr fun place => and_congr_right fun hchanged => ?_
  obtain ⟨f, hfile⟩ := ht'.exists_file_of_bytes?_ne hchanged
  exact h place f hfile

end

/-- The watched files cover the build exactly if no inclusion leads to a file without
text: then, and only then, any rewriting that gives another build rewrites one of
them.  As long as no item is beyond the limit on paths, the watched paths are the
absolute ones. -/
theorem covers_iff (t : FileTree) (ht : t.Proper) (p : Project) (b : Build)
    (h : p.build t.disk = .ok b) :
    (p.Covers t b (Watches t b) ↔ ∀ place, ¬ p.StumblesOn t place) ∧
    (t.WithinLimit →
      (p.Covers t b (fun place => FileTree.absolute place ∈ b.watchedPaths) ↔
        ∀ place, ¬ p.StumblesOn t place)) := by
  refine ⟨covers_watches_iff ht h, fun hlimit => ?_⟩
  rw [← covers_watches_iff ht h]
  exact covers_congr fun place f hfile => (watches_iff_of_withinLimit ht hlimit h hfile).symm

def booklet (a : Item) : FileTree where
  items := [
    (["w"], .directory),
    (["w", "main.tex"], .ofText "\\input{a}"),
    (["w", "a.tex"], a)]
  workingDirectory := ["w"]
  pathLimit := some FileTree.maxPathBytes

theorem proper_booklet (a : Item) : (booklet a).Proper :=
  ⟨by simp [booklet], by simp [booklet, FileTree.item?]⟩

/-- All files of the booklet hold text, so those that are watched cover it. -/
theorem covers_booklet :
    (booklet (.ofText "")).Proper ∧ (booklet (.ofText "")).WithinLimit ∧
    (mk "main.tex" ["tex"] true).build (booklet (.ofText "")).disk =
      .ok ⟨[], [⟨"/w/main.tex"⟩, ⟨"/w/a.tex"⟩]⟩ ∧
    ∀ t', (booklet (.ofText "")).Rewrites t' →
      (mk "main.tex" ["tex"] true).build t'.disk ≠ .ok ⟨[], [⟨"/w/main.tex"⟩, ⟨"/w/a.tex"⟩]⟩ →
      ∃ place, t'.bytes? place ≠ (booklet (.ofText "")).bytes? place ∧
        FileTree.absolute place ∈ ["/w/main.tex", "/w/a.tex"] := by
  have hbuild : (mk "main.tex" ["tex"] true).build (booklet (.ofText "")).disk =
      .ok ⟨[], [⟨"/w/main.tex"⟩, ⟨"/w/a.tex"⟩]⟩ := by
    decide +kernel
  have hlimit : (booklet (.ofText "")).WithinLimit := by decide +kernel
  refine ⟨proper_booklet _, hlimit, hbuild,
    ((covers_iff _ (proper_booklet _) _ _ hbuild).2 hlimit).2 ?_⟩
  rintro place ⟨_, _, _, -, -, -, -, hdecided, hno⟩
  obtain ⟨f, hitem⟩ := hdecided.exists_file
  have hmem := FileTree.mem_items_of_item? hitem (FileTree.ne_nil_of_file hitem)
  have htext : f.text? ≠ none := by
    simp only [booklet, Item.ofText, List.mem_cons, Prod.mk.injEq, Item.file.injEq, reduceCtorEq,
      and_false, List.not_mem_nil, or_false, false_or] at hmem
    rcases hmem with ⟨-, rfl⟩ | ⟨-, rfl⟩ <;> decide +kernel
  rw [FileTree.text?_of_file hitem] at hno
  exact htext hno

/-- A byte that is no text. -/
def garbled : Item :=
  .file ⟨⟨#[0xff]⟩, 0⟩

def mended : FileTree :=
  (booklet garbled).set ["w", "a.tex"] (.ofText "\\section{A}")

/-- The file `a.tex` holds no text at first and is not watched.  With a section
written to it, and nothing else changed, the outline is another one. -/
theorem mended_not_covered :
    (booklet garbled).Proper ∧ (booklet garbled).Rewrites mended ∧
    (mk "main.tex" ["tex"] true).build (booklet garbled).disk = .ok ⟨[], [⟨"/w/main.tex"⟩]⟩ ∧
    (mk "main.tex" ["tex"] true).build mended.disk =
      .ok ⟨[⟨"A", 3, ⟨0, 0⟩, ⟨"/w/a.tex"⟩⟩], [⟨"/w/main.tex"⟩, ⟨"/w/a.tex"⟩]⟩ ∧
    ∀ place, mended.bytes? place ≠ (booklet garbled).bytes? place →
      FileTree.absolute place ∉ (Build.mk [] [⟨"/w/main.tex"⟩]).watchedPaths := by
  have hfile : (booklet garbled).item? ["w", "a.tex"] = some garbled := rfl
  refine ⟨proper_booklet _, FileTree.rewrites_set hfile _, by decide +kernel, by decide +kernel, ?_⟩
  intro place hchanged
  rw [mended, Item.ofText, FileTree.bytes?_set (by decide)] at hchanged
  split at hchanged
  · next hplace =>
    rw [hplace]
    decide +kernel
  · exact absurd rfl hchanged

end Project
end Sectioning
