/-
Looking documents up on a shelf.

Of the documents put under one name the latest counts: what a shelf holds under a name is
what a look-up in the reversed list of documents finds (`text?_ofList_eq_lookup`).
-/
import Sectioning.Inclusion.Library

namespace Sectioning
namespace Shelf

theorem text?_insert (s : Shelf) (name text other : String) :
    (s.insert name text).text? other = if name = other then some text else s.text? other := by
  unfold text? insert
  by_cases h : name = other
  · rw [if_pos h, List.find?_cons, h, beq_self_eq_true]
    rfl
  · have hne : (name == other) = false := beq_eq_false_iff_ne.2 h
    rw [if_neg h, List.find?_cons, hne]
    show (List.find? _ (List.filter _ s.documents)).map _ = _
    rw [List.find?_filter]
    congr 2
    funext d
    by_cases hd : d.1 = other
    · have hdn : d.1 ≠ name := by rw [hd]; exact Ne.symm h
      simp [hd, Ne.symm h]
    · simp [hd]

theorem text?_foldl_insert (documents : List (String × String)) (name : String) (s : Shelf) :
    (documents.foldl (fun s d => s.insert d.1 d.2) s).text? name =
      (documents.reverse.lookup name).or (s.text? name) := by
  induction documents generalizing s with
  | nil => rfl
  | cons d documents ih =>
    obtain ⟨other, text⟩ := d
    rw [List.foldl_cons, ih, text?_insert, List.reverse_cons, List.lookup_append, Option.or_assoc,
      List.lookup_cons]
    congr 1
    by_cases h : other = name
    · rw [if_pos h, h, beq_self_eq_true]
      rfl
    · rw [if_neg h, beq_eq_false_iff_ne.2 (Ne.symm h)]
      rfl

theorem text?_ofList_eq_lookup (documents : List (String × String)) (name : String) :
    (ofList documents).text? name = documents.reverse.lookup name := by
  rw [ofList, text?_foldl_insert]
  exact Option.or_none

/-- A shelf made from documents of different names holds each of them. -/
theorem text?_ofList {documents : List (String × String)} (hnames : (documents.map (·.1)).Nodup)
    {name text : String} (h : (name, text) ∈ documents) :
    (ofList documents).text? name = some text := by
  obtain ⟨before, after, rfl⟩ := List.append_of_mem h
  rw [List.map_append, List.map_cons, List.nodup_append] at hnames
  have hafter : name ∉ after.map (·.1) := (List.nodup_cons.1 hnames.2.1).1
  rw [text?_ofList_eq_lookup, List.lookup_eq_some_iff]
  refine ⟨after.reverse, before.reverse, by simp, fun d hd => bne_iff_ne.2 ?_⟩
  rintro rfl
  exact hafter (List.mem_map_of_mem (List.mem_reverse.1 hd))

theorem text?_eq_none_iff {s : Shelf} {name : String} :
    s.text? name = none ↔ name ∉ s.documents.map (·.1) := by
  rw [text?, Option.map_eq_none_iff, List.find?_eq_none, List.mem_map]
  constructor
  · rintro h ⟨d, hd, rfl⟩
    exact h d hd (beq_self_eq_true d.1)
  · intro h d hd hname
    exact h ⟨d, hd, eq_of_beq hname⟩

/-- What a shelf resolves to is the document that it holds under that name. -/
theorem text?_of_resolve {s : Shelf} {target : String} {asker : SourceId} {b : Buffer}
    (h : s.resolve target asker = some b) :
    ∃ text, s.text? b.id.name = some text ∧ b = .ofString b.id text := by
  obtain ⟨name, -, hname⟩ := List.exists_of_findSome?_eq_some h
  obtain ⟨text, htext, rfl⟩ := Option.map_eq_some_iff.1 hname
  exact ⟨text, htext, rfl⟩

theorem resolve_library (s : Shelf) : s.library.resolve = s.resolve := by
  rw [library, Library.ofList]

end Shelf
end Sectioning
