/-
Which document of a shelf a name finds.

A name is looked for as it is written and with `.tex` behind it, and which of the two is
tried first depends on whether it ends in an extension (`Path.hasExtension_iff`).  So
the name as written is preferred unless both names are taken and it ends in none
(`resolve_prefers_exact_iff`).
-/
import Sectioning.Proofs.Segments
import Sectioning.Proofs.Shelf

namespace Sectioning

/-! ## Extensions -/

namespace Path

/-- The last segment that is neither empty nor a single dot has a dot behind its first
character and is not the step up. -/
def EndsInExtension (path : String) : Prop :=
  ∃ front stem ending fillers, segments path = front ++ (stem ++ "." ++ ending) :: fillers ∧
    stem ≠ "" ∧ stem ++ "." ++ ending ≠ ".." ∧ ∀ s ∈ fillers, s = "" ∨ s = "."

variable {path s : String}

theorem ofSegment?_eq_name_iff {t : String} :
    Component.ofSegment? s = some (.name t) ↔ s = t ∧ s ≠ "" ∧ s ≠ "." ∧ s ≠ ".." := by
  unfold Component.ofSegment?
  split
  · next h =>
    rcases h with rfl | rfl <;> simp
  · next h =>
    rw [not_or] at h
    split
    · next hup => simp [hup]
    · next hup => simp [h, hup]

/-- A path ends in the name of its last segment that counts. -/
theorem getLast?_components_iff : (components path).getLast? = some (.name s) ↔
    ∃ front fillers, segments path = front ++ s :: fillers ∧
      (s ≠ "" ∧ s ≠ "." ∧ s ≠ "..") ∧ ∀ f ∈ fillers, f = "" ∨ f = "." := by
  have hlead : ∃ lead : List Component, (∀ t, lead.getLast? ≠ some (.name t)) ∧
      components path = lead ++ (segments path).filterMap Component.ofSegment? := by
    unfold components
    split
    · exact ⟨[.root], by simp, rfl⟩
    · split
      · exact ⟨[.here], by simp, rfl⟩
      · exact ⟨[], by simp, rfl⟩
  obtain ⟨lead, hname, hcomponents⟩ := hlead
  rw [hcomponents, List.getLast?_append, List.getLast?_filterMap, Option.or_eq_some_iff,
    List.findSome?_eq_some_iff]
  constructor
  · rintro (⟨back, a, front, hreverse, ha, hback⟩ | ⟨-, h⟩)
    · obtain ⟨rfl, hs⟩ := ofSegment?_eq_name_iff.1 ha
      refine ⟨front.reverse, back.reverse, ?_, hs, fun f hf => ?_⟩
      · rw [← List.reverse_reverse (segments path), hreverse]
        simp
      · exact ofSegment?_eq_none_iff.1 (hback f (List.mem_reverse.1 hf))
    · exact absurd h (hname s)
  · rintro ⟨front, fillers, hsegments, hs, hfillers⟩
    refine Or.inl ⟨fillers.reverse, s, front.reverse, ?_, ofSegment?_eq_name_iff.2 ⟨rfl, hs⟩,
      fun f hf => ofSegment?_eq_none_iff.2 (hfillers f (List.mem_reverse.1 hf))⟩
    rw [hsegments]
    simp

theorem contains_dot_iff : s.toList.tail.contains '.' = true ↔
    ∃ stem ending, stem ≠ "" ∧ s = stem ++ "." ++ ending := by
  rw [List.contains_iff_mem]
  constructor
  · intro h
    obtain ⟨us, vs, htail⟩ := List.append_of_mem h
    cases hs : s.toList with
    | nil => simp [hs] at h
    | cons c cs =>
      rw [hs, List.tail_cons] at htail
      refine ⟨String.ofList (c :: us), String.ofList vs, by simp, String.toList_inj.1 ?_⟩
      simp [hs, htail]
  · rintro ⟨stem, ending, hstem, rfl⟩
    obtain ⟨c, cs, hcs⟩ := List.exists_cons_of_ne_nil (mt String.toList_eq_nil_iff.1 hstem)
    simp [hcs]

theorem hasExtension_iff : hasExtension path = true ↔ EndsInExtension path := by
  have hlast : hasExtension path = true ↔ ∃ s, (components path).getLast? = some (.name s) ∧
      s.toList.tail.contains '.' = true := by
    unfold hasExtension
    split
    · next s h => simp [h]
    · next h =>
      constructor
      · intro hfalse
        cases hfalse
      · rintro ⟨s, hs, -⟩
        exact absurd hs (h s)
  rw [hlast]
  constructor
  · rintro ⟨s, hs, hdot⟩
    obtain ⟨front, fillers, hsegments, ⟨-, -, hup⟩, hfillers⟩ := getLast?_components_iff.1 hs
    obtain ⟨stem, ending, hstem, rfl⟩ := contains_dot_iff.1 hdot
    exact ⟨front, stem, ending, fillers, hsegments, hstem, hup, hfillers⟩
  · rintro ⟨front, stem, ending, fillers, hsegments, hstem, hup, hfillers⟩
    have hdot := contains_dot_iff.2 ⟨stem, ending, hstem, rfl⟩
    refine ⟨_, getLast?_components_iff.2 ⟨front, fillers, hsegments, ⟨?_, ?_, hup⟩, hfillers⟩,
      hdot⟩
    · intro hnil
      simp [hnil] at hdot
    · intro hsingle
      simp [hsingle] at hdot

end Path

namespace Shelf

/-! ## The latest document of a name -/

variable {documents : List (String × String)} {name : String}

theorem extensions_ofList (documents : List (String × String)) :
    (ofList documents).extensions = ["tex"] := by
  have hinsert : ∀ s : Shelf,
      (documents.foldl (fun s d => s.insert d.1 d.2) s).extensions = s.extensions := by
    induction documents with
    | nil => exact fun s => rfl
    | cons d documents ih => exact fun s => ih (s.insert d.1 d.2)
  exact hinsert empty

/-- The document that was put under `name` last. -/
def latest? (documents : List (String × String)) (name : String) : Option Buffer :=
  (documents.reverse.lookup name).map (Buffer.ofString ⟨name⟩)

theorem latest?_eq_none_iff : latest? documents name = none ↔ name ∉ documents.map (·.1) := by
  rw [latest?, Option.map_eq_none_iff, List.lookup_eq_none_iff, List.mem_map]
  constructor
  · rintro h ⟨d, hd, rfl⟩
    exact bne_iff_ne.1 (h d (List.mem_reverse.2 hd)) rfl
  · intro h d hd
    exact bne_iff_ne.2 fun hname => h ⟨d, List.mem_reverse.1 hd, hname.symm⟩

theorem id_of_latest? {b : Buffer} (h : latest? documents name = some b) : b.id = ⟨name⟩ := by
  obtain ⟨text, -, rfl⟩ := Option.map_eq_some_iff.1 h
  rfl

/-! ## Which name is preferred -/

theorem resolve_ofList (documents : List (String × String)) (target : String) (asker : SourceId) :
    (ofList documents).resolve target asker =
      if Path.hasExtension (trimmed target) then
        (latest? documents (trimmed target)).or (latest? documents (trimmed target ++ ".tex"))
      else
        (latest? documents (trimmed target ++ ".tex")).or (latest? documents (trimmed target)) := by
  have htext : (fun name => ((ofList documents).text? name).map (Buffer.ofString ⟨name⟩)) =
      latest? documents := by
    funext name
    rw [text?_ofList_eq_lookup, latest?]
  have htwo : ∀ first second : String, [first, second].findSome? (latest? documents) =
      (latest? documents first).or (latest? documents second) := by
    intro first second
    rw [List.findSome?_cons, List.findSome?_cons, List.findSome?_nil]
    cases latest? documents first <;> cases latest? documents second <;> rfl
  have hdot : trimmed target ++ "." ++ "tex" = trimmed target ++ ".tex" := String.append_assoc
  rw [resolve, extensions_ofList, htext, spellings, List.map_singleton, hdot]
  split
  · exact htwo _ _
  · exact htwo _ _

/-- The order in which two names are tried makes a difference exactly if both are taken. -/
theorem latest?_or_comm_iff {other : String} (hne : name ≠ other) :
    (latest? documents other).or (latest? documents name) =
        (latest? documents name).or (latest? documents other) ↔
      ¬ (name ∈ documents.map (·.1) ∧ other ∈ documents.map (·.1)) := by
  cases hname : latest? documents name with
  | none => simp [latest?_eq_none_iff.1 hname]
  | some b =>
    cases hother : latest? documents other with
    | none => simp [latest?_eq_none_iff.1 hother]
    | some b' =>
      have htaken : name ∈ documents.map (·.1) ∧ other ∈ documents.map (·.1) :=
        ⟨not_not.1 (mt latest?_eq_none_iff.2 (by simp [hname])),
          not_not.1 (mt latest?_eq_none_iff.2 (by simp [hother]))⟩
      refine iff_of_false (fun h => hne ?_) (not_not.2 htaken)
      have hid : b'.id = b.id := congrArg Buffer.id (Option.some.inj h)
      rw [id_of_latest? hname, id_of_latest? hother] at hid
      exact (SourceId.mk.inj hid).symm

/-- The name as written is preferred to the one with `.tex` behind it, unless both are
taken and the name as written ends in no extension.  A name that ends in none is tried with
`.tex` first. -/
theorem resolve_prefers_exact_iff (documents : List (String × String)) (target : String)
    (asker : SourceId) :
    ((ofList documents).resolve target asker =
        (latest? documents (trimmed target)).or (latest? documents (trimmed target ++ ".tex")) ↔
      (trimmed target ∈ documents.map (·.1) → trimmed target ++ ".tex" ∈ documents.map (·.1) →
        Path.EndsInExtension (trimmed target))) ∧
    (¬ Path.EndsInExtension (trimmed target) → (ofList documents).resolve target asker =
      (latest? documents (trimmed target ++ ".tex")).or (latest? documents (trimmed target))) := by
  have hne : trimmed target ≠ trimmed target ++ ".tex" := by
    intro h
    have hlength := congrArg String.length h
    simp at hlength
  rw [resolve_ofList]
  split
  · next h =>
    have hextension := Path.hasExtension_iff.1 h
    exact ⟨iff_of_true rfl fun _ _ => hextension, fun hno => absurd hextension hno⟩
  · next h =>
    have hno : ¬ Path.EndsInExtension (trimmed target) := mt Path.hasExtension_iff.2 h
    refine ⟨(latest?_or_comm_iff hne).trans ?_, fun _ => rfl⟩
    rw [not_and]
    exact forall_congr' fun _ => forall_congr' fun _ => (iff_false_intro hno).symm

/-- A document under a name without an extension, and one under that name with `.tex`. -/
def twoSpellings : List (String × String) :=
  [("a", "x"), ("a.tex", "y")]

theorem bare_name_not_preferred :
    trimmed "a" ∈ twoSpellings.map (·.1) ∧
    ((ofList twoSpellings).resolve "a" ⟨"main.tex"⟩).map Buffer.id = some ⟨"a.tex"⟩ ∧
    (ofList twoSpellings).resolve "a" ⟨"main.tex"⟩ ≠ latest? twoSpellings (trimmed "a") := by
  have hfound : ((ofList twoSpellings).resolve "a" ⟨"main.tex"⟩).map Buffer.id =
      some ⟨"a.tex"⟩ := by decide +kernel
  refine ⟨by decide +kernel, hfound, fun h => ?_⟩
  rw [h] at hfound
  exact absurd hfound (by decide +kernel)

end Shelf
end Sectioning
