/-
The documents and headings that a build holds are those that can be reached.

A cycle of inclusions is cut at a document of the chain, and not at one that was
met before.  So a cut hides nothing: the document at which it happens is under
expansion already, and what it includes is entered from there
(`Reached.exists_of_mem_path`).  Every document that inclusions lead to is
therefore expanded at least once (`Shelf.Reachable.exists_reached`).

What the calls of an expansion come upon is what the build holds
(`Gathers.mem_headings_iff`, `Gathers.mem_sources_iff`), for every resolver.
-/
import Sectioning.Proofs.Gathering

namespace Sectioning
namespace Build

/-! ## What an expansion comes upon -/

/-- The call `c` comes to make the call `c'`. -/
def Reaches (resolve : Resolver) (follow : Bool) (c c' : Call) : Prop :=
  Relation.ReflTransGen (fun outer inner => Enters resolve follow inner outer) c c'

/-- Expanding the entry `e` of `source` comes upon an entry with the property
`P`: `e` itself, or one of a document that is entered. -/
inductive Meets (resolve : Resolver) (follow : Bool) (P : SourceId → Entry → Prop) :
    Chain → SourceId → Entry → Prop
  | here {chain source e} (h : P source e) : Meets resolve follow P chain source e
  | inside {chain source i b e} (htarget : target? resolve follow source i = some b)
      (hnew : b.id ∉ source :: chain) (he : e ∈ b.entries)
      (h : Meets resolve follow P (source :: chain) b.id e) :
      Meets resolve follow P chain source (.inclusion i)

section

variable {resolve : Resolver} {follow : Bool} {P : SourceId → Entry → Prop} {chain : Chain}
  {source : SourceId} {e : Entry} {es : List Entry} {i : Inclusion} {b : Buffer}
  {seen : List SourceId} {build : Build} {c c' : Call}

theorem meets_rejected_iff :
    Meets resolve follow P chain source .rejected ↔ P source .rejected :=
  ⟨fun h => by cases h with | here h => exact h, .here⟩

theorem meets_heading_iff {h : Heading} :
    Meets resolve follow P chain source (.heading h) ↔ P source (.heading h) :=
  ⟨fun h => by cases h with | here h => exact h, .here⟩

theorem meets_inclusion_of_none (htarget : target? resolve follow source i = none) :
    Meets resolve follow P chain source (.inclusion i) ↔ P source (.inclusion i) := by
  refine ⟨fun h => ?_, .here⟩
  cases h with
  | here h => exact h
  | inside htarget' =>
    rw [htarget] at htarget'
    cases htarget'

theorem meets_inclusion_of_mem (htarget : target? resolve follow source i = some b)
    (hmem : b.id ∈ source :: chain) :
    Meets resolve follow P chain source (.inclusion i) ↔ P source (.inclusion i) := by
  refine ⟨fun h => ?_, .here⟩
  cases h with
  | here h => exact h
  | inside htarget' hnew =>
    rw [htarget] at htarget'
    cases htarget'
    exact absurd hmem hnew

theorem meets_inclusion_of_notMem (htarget : target? resolve follow source i = some b)
    (hnew : b.id ∉ source :: chain) :
    Meets resolve follow P chain source (.inclusion i) ↔ P source (.inclusion i) ∨
      ∃ e ∈ b.entries, Meets resolve follow P (source :: chain) b.id e := by
  constructor
  · intro h
    cases h with
    | here h => exact .inl h
    | inside htarget' _ he h =>
      rw [htarget] at htarget'
      cases htarget'
      exact .inr ⟨_, he, h⟩
  · rintro (h | ⟨e, he, h⟩)
    · exact .here h
    · exact .inside htarget hnew he h

theorem Gathers.mem_headings_iff (h : Gathers resolve follow chain source es seen build)
    {hd : Heading} :
    hd ∈ build.headings ↔
      ∃ e ∈ es, Meets resolve follow (fun _ e => e = .heading hd) chain source e := by
  induction h with
  | nil => simp
  | rejected _ ih => simp [meets_rejected_iff, ih]
  | heading _ ih => simp [meets_heading_iff, ih, eq_comm]
  | lost htarget _ ih => simp [meets_inclusion_of_none htarget, ih]
  | cut htarget hmem _ ih => simp [meets_inclusion_of_mem htarget hmem, ih]
  | enter htarget hnew _ _ ihinside ih =>
    simp [meets_inclusion_of_notMem htarget hnew, ihinside, ih]

/-- The entry is an inclusion that leads to the document `id`. -/
def LeadsTo (resolve : Resolver) (follow : Bool) (id source : SourceId) (e : Entry) : Prop :=
  ∃ i b, e = .inclusion i ∧ target? resolve follow source i = some b ∧ b.id = id

theorem Gathers.mem_sources_iff (h : Gathers resolve follow chain source es seen build)
    {id : SourceId} :
    id ∈ build.sources ↔ id ∈ seen ∨
      ∃ e ∈ es, Meets resolve follow (LeadsTo resolve follow id) chain source e := by
  induction h with
  | nil => simp
  | rejected _ ih => simp [meets_rejected_iff, LeadsTo, ih]
  | heading _ ih => simp [meets_heading_iff, LeadsTo, ih]
  | lost htarget _ ih => simp [meets_inclusion_of_none htarget, LeadsTo, htarget, ih]
  | cut htarget hmem _ ih =>
    simp [meets_inclusion_of_mem htarget hmem, LeadsTo, htarget, ih, SourceId.mem_note, or_assoc,
      eq_comm]
  | enter htarget hnew _ _ ihinside ih =>
    simp [meets_inclusion_of_notMem htarget hnew, LeadsTo, htarget, ihinside, ih,
      SourceId.mem_note, or_assoc, eq_comm]

/-! ## Calls -/

theorem Meets.exists_reaches (h : Meets resolve follow P chain source e) :
    ∀ c : Call, chain = c.chain → source = c.buffer.id → e ∈ c.buffer.entries →
      ∃ c', Reaches resolve follow c c' ∧ ∃ e ∈ c'.buffer.entries, P c'.buffer.id e := by
  induction h with
  | here h =>
    rintro c - rfl he
    exact ⟨c, .refl, _, he, h⟩
  | @inside _ _ i b _ htarget hnew he _ ih =>
    rintro c rfl rfl hi
    obtain ⟨c', hreaches, hmet⟩ := ih ⟨c.path, b⟩ rfl rfl he
    exact ⟨c', .head (enters_iff.2 ⟨rfl, hnew, i, hi, htarget⟩) hreaches, hmet⟩

/-- The expansion of a document comes upon what its calls hold. -/
theorem exists_meets_iff :
    (∃ e ∈ c.buffer.entries, Meets resolve follow P c.chain c.buffer.id e) ↔
      ∃ c', Reaches resolve follow c c' ∧ ∃ e ∈ c'.buffer.entries, P c'.buffer.id e := by
  constructor
  · rintro ⟨e, he, hmeets⟩
    exact hmeets.exists_reaches c rfl rfl he
  · rintro ⟨c', hreaches, e, he, hP⟩
    induction hreaches using Relation.ReflTransGen.head_induction_on with
    | refl => exact ⟨e, he, .here hP⟩
    | head hin _ ih =>
      obtain ⟨hchain, hnew, i, hi, htarget⟩ := enters_iff.1 hin
      obtain ⟨e', he', hmeets⟩ := ih
      rw [hchain] at hmeets
      exact ⟨_, hi, .inside htarget hnew he' hmeets⟩

/-! ## Documents under expansion -/

variable {root : Buffer}

theorem Reached.root_mem_path (h : Reached resolve follow root c) : root.id ∈ c.path := by
  induction h with
  | refl => exact List.mem_cons_self
  | tail _ hin ih =>
    rw [Call.path, (enters_iff.1 hin).1]
    exact List.mem_cons_of_mem _ ih

/-- Each document of the chain is the document of a call. -/
theorem Reached.exists_of_mem_path (h : Reached resolve follow root c) {id : SourceId}
    (hid : id ∈ c.path) : ∃ c', Reached resolve follow root c' ∧ c'.buffer.id = id := by
  induction h with
  | refl => exact ⟨_, .refl, (List.mem_singleton.1 hid).symm⟩
  | @tail _ inner houter hin ih =>
    rw [Call.path, (enters_iff.1 hin).1, List.mem_cons] at hid
    rcases hid with rfl | hid
    · exact ⟨inner, houter.tail hin, rfl⟩
    · exact ih hid

/-- A call is for the root, or for a document that was resolved and is not the
root. -/
theorem Reached.eq_root_or (h : Reached resolve follow root c) :
    c = .root root ∨ c.buffer.id ≠ root.id ∧
      ∃ target asker, resolve target asker = some c.buffer := by
  cases h with
  | refl => exact .inl rfl
  | tail houter hin =>
    obtain ⟨-, hnew, i, -, htarget⟩ := enters_iff.1 hin
    refine .inr ⟨fun hid => hnew ?_, i.path, _, (target?_eq_some_iff.1 htarget).2⟩
    rw [hid]
    exact Reached.root_mem_path houter

/-! ## Builds -/

theorem Gathers.mem_headings_iff_reached
    (h : Gathers resolve follow [] root.id root.entries seen build) {hd : Heading} :
    hd ∈ build.headings ↔
      ∃ c, Reached resolve follow root c ∧ .heading hd ∈ c.buffer.entries := by
  rw [h.mem_headings_iff]
  refine (exists_meets_iff (c := .root root)).trans (exists_congr fun c => ?_)
  simp [Reached, Reaches]

theorem mem_headings_build_iff {lib : Library}
    (h : lib.build follow (.ofBuffer root) = .ok build) {hd : Heading} :
    hd ∈ build.headings ↔
      ∃ c, Reached lib.resolve follow root c ∧ .heading hd ∈ c.buffer.entries :=
  (gathers_of_build h).mem_headings_iff_reached

theorem mem_sources_build_iff {lib : Library}
    (h : lib.build follow (.ofBuffer root) = .ok build) {id : SourceId} :
    id ∈ build.sources ↔ id = root.id ∨
      ∃ c, Reached lib.resolve follow root c ∧
        ∃ e ∈ c.buffer.entries, LeadsTo lib.resolve follow id c.buffer.id e := by
  rw [(gathers_of_build h).mem_sources_iff, List.mem_singleton]
  exact or_congr Iff.rfl (exists_meets_iff (c := .root root))

end
end Build

/-! ## The graph of inclusions -/

namespace Shelf

/-- The document that an identity stands for when `root` is expanded: the root
itself under its own identity, whatever the shelf holds under that name. -/
def document? (s : Shelf) (root : Buffer) (id : SourceId) : Option Buffer :=
  if id = root.id then some root else (s.text? id.name).map (Buffer.ofString id)

/-- An inclusion in the document `id` is accepted and names the document `id'`. -/
def Includes (s : Shelf) (root : Buffer) (id id' : SourceId) : Prop :=
  ∃ b es i b', s.document? root id = some b ∧ (Source.ofBuffer b).entries = .ok es ∧
    .inclusion i ∈ es ∧ s.resolve i.path id = some b' ∧ b'.id = id'

def Reachable (s : Shelf) (root : Buffer) (id : SourceId) : Prop :=
  Relation.ReflTransGen (s.Includes root) root.id id

section

open Build

variable {s : Shelf} {root : Buffer} {c : Call} {id : SourceId}

theorem document?_of_reached (h : Reached s.resolve true root c) :
    s.document? root c.buffer.id = some c.buffer := by
  rcases h.eq_root_or with rfl | ⟨hne, target, asker, hresolve⟩
  · exact if_pos rfl
  · obtain ⟨text, htext, hbuffer⟩ := text?_of_resolve hresolve
    rw [document?, if_neg hne, htext, Option.map_some, ← hbuffer]

theorem includes_iff_of_reached (h : Reached s.resolve true root c) :
    s.Includes root c.buffer.id id ↔
      ∃ e ∈ c.buffer.entries, LeadsTo s.resolve true id c.buffer.id e := by
  constructor
  · rintro ⟨b, es, i, b', hb, hes, hi, hresolve, hid⟩
    rw [document?_of_reached h, Option.some.injEq] at hb
    subst hb
    rw [Source.entries_ofBuffer] at hes
    cases hes
    exact ⟨_, hi, i, b', rfl, hresolve, hid⟩
  · rintro ⟨_, hi, i, b', rfl, hresolve, hid⟩
    exact ⟨_, _, i, b', document?_of_reached h, Source.entries_ofBuffer _, hi, hresolve, hid⟩

theorem reachable_of_reached (h : Reached s.resolve true root c) :
    s.Reachable root c.buffer.id := by
  induction h with
  | refl => exact .refl
  | tail houter hin ih =>
    obtain ⟨-, -, i, hi, htarget⟩ := enters_iff.1 hin
    exact ih.tail ((includes_iff_of_reached houter).2 ⟨_, hi, i, _, rfl, htarget, rfl⟩)

/-- Every document that inclusions lead to is expanded.  Where an inclusion is
cut, the document that it names is under expansion already. -/
theorem Reachable.exists_reached (h : s.Reachable root id) :
    ∃ c, Reached s.resolve true root c ∧ c.buffer.id = id := by
  induction h with
  | refl => exact ⟨.root root, .refl, rfl⟩
  | tail _ hincludes ih =>
    obtain ⟨c, hc, rfl⟩ := ih
    obtain ⟨_, hi, i, b, rfl, htarget, rfl⟩ := (includes_iff_of_reached hc).1 hincludes
    by_cases hmem : b.id ∈ c.path
    · exact hc.exists_of_mem_path hmem
    · exact ⟨⟨c.path, b⟩, hc.tail (enters_iff.2 ⟨rfl, hmem, i, hi, htarget⟩), rfl⟩

theorem reachable_iff :
    s.Reachable root id ↔ id = root.id ∨
      ∃ c, Reached s.resolve true root c ∧
        ∃ e ∈ c.buffer.entries, LeadsTo s.resolve true id c.buffer.id e := by
  constructor
  · intro h
    rcases Relation.ReflTransGen.cases_tail h with rfl | ⟨id', hid', hincludes⟩
    · exact .inl rfl
    · obtain ⟨c, hc, rfl⟩ := Reachable.exists_reached hid'
      exact .inr ⟨c, hc, (includes_iff_of_reached hc).1 hincludes⟩
  · rintro (rfl | ⟨c, hc, hleads⟩)
    · exact .refl
    · exact (reachable_of_reached hc).tail ((includes_iff_of_reached hc).2 hleads)

end

/-- The build lists the documents that the root leads to, each once, and has
exactly their headings. -/
structure Exhausts (s : Shelf) (root : Buffer) (build : Build) : Prop where
  root_first : build.sources.head? = some root.id
  nodup : build.sources.Nodup
  mem_sources_iff : ∀ id, id ∈ build.sources ↔ s.Reachable root id
  source_mem : ∀ h ∈ build.headings, h.source ∈ build.sources
  exists_document : ∀ id, s.Reachable root id → ∃ b, s.document? root id = some b
  mem_headings_iff : ∀ h, h ∈ build.headings ↔
    ∃ id b es, s.Reachable root id ∧ s.document? root id = some b ∧
      (Source.ofBuffer b).entries = .ok es ∧ .heading h ∈ es

theorem exhausts_of_build {s : Shelf} {root : Buffer} {build : Build}
    (h : s.library.build true (.ofBuffer root) = .ok build) : s.Exhausts root build := by
  have hgathers := Build.gathers_of_build h
  have hsources : ∀ id, id ∈ build.sources ↔ s.Reachable root id := fun id => by
    rw [reachable_iff, Build.mem_sources_build_iff h, resolve_library]
  have hheadings : ∀ hd, hd ∈ build.headings ↔
      ∃ c, Build.Reached s.resolve true root c ∧ .heading hd ∈ c.buffer.entries := fun hd => by
    rw [Build.mem_headings_build_iff h, resolve_library]
  refine ⟨?_, hgathers.nodup_sources (List.nodup_singleton _), hsources, ?_, ?_, ?_⟩
  · obtain ⟨more, hmore⟩ := hgathers.prefix_sources
    rw [← hmore]
    rfl
  · intro hd hhd
    obtain ⟨c, hc, hmem⟩ := (hheadings hd).1 hhd
    rw [c.buffer.tagged_entries hd hmem, hsources]
    exact reachable_of_reached hc
  · intro id hid
    obtain ⟨c, hc, rfl⟩ := Reachable.exists_reached hid
    exact ⟨_, document?_of_reached hc⟩
  · intro hd
    rw [hheadings]
    constructor
    · rintro ⟨c, hc, hmem⟩
      exact ⟨_, _, _, reachable_of_reached hc, document?_of_reached hc,
        Source.entries_ofBuffer _, hmem⟩
    · rintro ⟨id, b, es, hid, hb, hes, hmem⟩
      obtain ⟨c, hc, rfl⟩ := Reachable.exists_reached hid
      rw [document?_of_reached hc, Option.some.injEq] at hb
      subst hb
      rw [Source.entries_ofBuffer] at hes
      cases hes
      exact ⟨c, hc, hmem⟩

/-- Every root has a build, and the build leaves out nothing that the root leads
to. -/
theorem exists_build_exhausts (s : Shelf) (root : Buffer) :
    ∃ build, s.library.build true (.ofBuffer root) = .ok build ∧ s.Exhausts root build := by
  obtain ⟨build, h⟩ := Build.exists_build_eq_ok s.library true root
  exact ⟨build, h, exhausts_of_build h⟩

end Shelf
end Sectioning
