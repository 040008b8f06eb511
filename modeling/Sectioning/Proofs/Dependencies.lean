/-
A build depends on the documents that it lists and on no others.

Every document is listed before it is read, so a second resolver that gives the
same answers for the listed documents takes the expansion through the same steps
(`Gathers.of_agreeOn`).  On a shelf the listed texts decide these answers, provided
that the same names are in use (`Shelf.agreeOn`).
-/
import Sectioning.Proofs.Gathering

namespace Sectioning
namespace Build

/-- The second resolver answers like the first one, wherever the first one finds
nothing or a document among `ids`. -/
def AgreeOn (ids : List SourceId) (resolve resolve' : Resolver) : Prop :=
  ∀ target asker, (∀ b, resolve target asker = some b → b.id ∈ ids) →
    resolve' target asker = resolve target asker

section

variable {resolve resolve' : Resolver} {ids : List SourceId} {follow : Bool} {chain : Chain}
  {source : SourceId} {i : Inclusion} {es : List Entry} {seen : List SourceId} {build : Build}

theorem AgreeOn.target?_eq (h : AgreeOn ids resolve resolve')
    (hids : ∀ b, target? resolve follow source i = some b → b.id ∈ ids) :
    target? resolve' follow source i = target? resolve follow source i := by
  cases follow with
  | false => rfl
  | true => exact h i.path source hids

/-- A document under expansion is listed in the end, so the two resolvers agree
on it. -/
theorem Gathers.of_agreeOn (h : Gathers resolve follow chain source es seen build)
    (hagree : AgreeOn ids resolve resolve') (hids : build.sources ⊆ ids) :
    Gathers resolve' follow chain source es seen build := by
  have hnoted : ∀ {seen ids' : List SourceId} {b : Buffer},
      SourceId.note seen b.id <+: ids' → b.id ∈ ids' := fun hprefix =>
    hprefix.subset (SourceId.mem_note.2 (.inr rfl))
  induction h with
  | nil => exact .nil
  | rejected _ ih => exact .rejected (ih hids)
  | heading _ ih => exact .heading (ih hids)
  | lost htarget _ ih =>
    refine .lost ?_ (ih hids)
    rw [hagree.target?_eq (by simp [htarget]), htarget]
  | @cut _ _ _ b _ _ _ htarget hmem rest ih =>
    have hlisted : b.id ∈ ids := hids (hnoted rest.prefix_sources)
    refine .cut ?_ hmem (ih hids)
    rw [hagree.target?_eq (by simp [htarget, hlisted]), htarget]
  | @enter _ _ _ b _ _ inner _ htarget hnew inside rest ihinside ih =>
    have hinner : inner.sources ⊆ ids := fun _ hid => hids (rest.prefix_sources.subset hid)
    have hlisted : b.id ∈ ids := hinner (hnoted inside.prefix_sources)
    refine .enter ?_ hnew (ihinside hinner) (ih hids)
    rw [hagree.target?_eq (by simp [htarget, hlisted]), htarget]

theorem build_eq_ok_of_agreeOn {lib lib' : Library} {root : Source}
    (h : lib.build follow root = .ok build)
    (hagree : AgreeOn build.sources lib.resolve lib'.resolve) :
    lib'.build follow root = .ok build := by
  obtain ⟨es, hes, hgathers⟩ := build_eq_ok_iff_gathers.1 h
  exact build_eq_ok_iff_gathers.2 ⟨es, hes, hgathers.of_agreeOn hagree fun _ hid => hid⟩

end
end Build

namespace Shelf

theorem agreeOn {s s' : Shelf} {ids : List SourceId} (hextensions : s.extensions = s'.extensions)
    (hnames : ∀ name, name ∈ s.documents.map (·.1) ↔ name ∈ s'.documents.map (·.1))
    (htexts : ∀ id ∈ ids, s.text? id.name = s'.text? id.name) :
    Build.AgreeOn ids s.resolve s'.resolve := by
  intro target asker hids
  unfold resolve at hids ⊢
  rw [← hextensions]
  generalize spellings (trimmed target) s.extensions = names at hids ⊢
  induction names with
  | nil => rfl
  | cons name names ih =>
    rw [List.findSome?_cons, List.findSome?_cons]
    rw [List.findSome?_cons] at hids
    cases htext : s.text? name with
    | none =>
      -- the name is free on both shelves, and the next spelling is tried
      have htext' : s'.text? name = none := by
        rw [text?_eq_none_iff] at htext ⊢
        exact fun hmem => htext ((hnames name).2 hmem)
      rw [htext] at hids
      rw [htext']
      exact ih hids
    | some text =>
      rw [htext] at hids
      have hid : SourceId.mk name ∈ ids := hids _ rfl
      rw [← htexts _ hid, htext]
      rfl

/-- Texts that are not listed have no effect.  If two shelves hold documents under
the same names, and the documents that the first build lists have the same texts,
then the second build is the same. -/
theorem build_eq_of_listed_texts (extensions : List String)
    (documents documents' : List (String × String)) (follow : Bool) (root : Buffer)
    (hnames : ∀ name, name ∈ documents.map (·.1) ↔ name ∈ documents'.map (·.1)) :
    ∃ build, (mk documents extensions).library.build follow (.ofBuffer root) = .ok build ∧
      ((∀ id ∈ build.sources, (mk documents extensions).text? id.name =
          (mk documents' extensions).text? id.name) →
        (mk documents' extensions).library.build follow (.ofBuffer root) = .ok build) := by
  obtain ⟨build, h⟩ := Build.exists_build_eq_ok (mk documents extensions).library follow root
  refine ⟨build, h, fun htexts => Build.build_eq_ok_of_agreeOn h ?_⟩
  rw [resolve_library, resolve_library]
  exact agreeOn rfl hnames htexts

/-- The document `b.tex` is not listed and may have any text. -/
theorem build_with_unlisted_text :
    (mk [("a.tex", "\\section{a}"), ("b.tex", "")] ["tex"]).library.build true
      (.ofBuffer (.ofString ⟨"main.tex"⟩ "\\input{a}")) =
      .ok ⟨[⟨"a", 3, ⟨0, 0⟩, ⟨"a.tex"⟩⟩], [⟨"main.tex"⟩, ⟨"a.tex"⟩]⟩ ∧
    (mk [("a.tex", "\\section{a}"), ("b.tex", "\\section{b}")] ["tex"]).library.build true
      (.ofBuffer (.ofString ⟨"main.tex"⟩ "\\input{a}")) =
      .ok ⟨[⟨"a", 3, ⟨0, 0⟩, ⟨"a.tex"⟩⟩], [⟨"main.tex"⟩, ⟨"a.tex"⟩]⟩ := by
  have hfirst : (mk [("a.tex", "\\section{a}"), ("b.tex", "")] ["tex"]).library.build true
      (.ofBuffer (.ofString ⟨"main.tex"⟩ "\\input{a}")) =
      .ok ⟨[⟨"a", 3, ⟨0, 0⟩, ⟨"a.tex"⟩⟩], [⟨"main.tex"⟩, ⟨"a.tex"⟩]⟩ := by
    decide +kernel
  obtain ⟨build, h, hsecond⟩ := build_eq_of_listed_texts ["tex"]
    [("a.tex", "\\section{a}"), ("b.tex", "")]
    [("a.tex", "\\section{a}"), ("b.tex", "\\section{b}")] true
    (.ofString ⟨"main.tex"⟩ "\\input{a}") (fun _ => Iff.rfl)
  rw [hfirst, Except.ok.injEq] at h
  subst h
  exact ⟨hfirst, hsecond (by decide)⟩

end Shelf
end Sectioning
