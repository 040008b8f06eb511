/-
Which command forms scanning reports.

A command form is a name, a gap, perhaps a star, a gap and an opening delimiter, where
a gap is a run of blanks and whole comments.  At a place that no earlier occurrence
covers the form is reported if there is any ending for it (`mem_scan_iff`), and the
endings are looked up one by one (`exists_isReported_iff`).  There is no ending for a
star and a bracket.  Such a form is found only by a delimiter in one of its comments, or
by the first percent sign before the star (`reported_iff`).
-/
import Sectioning.Proofs.Anchors
import Sectioning.Proofs.LooseForms

namespace Sectioning
namespace Occurrence

/-- A run of blanks and whole comments, each with its line break. -/
inductive IsGap : List Char → Prop where
  | nil : IsGap []
  | blank {c : Char} {cs : List Char} : isBlank c = true → IsGap cs → IsGap (c :: cs)
  | comment {w cs : List Char} : '\n' ∉ w → IsGap cs → IsGap ('%' :: (w ++ '\n' :: cs))

section

variable {g g' cs : List Char} {c d : Char} {k : Keyword}

/-! ## Gaps -/

theorem IsGap.append (h : IsGap g) (h' : IsGap g') : IsGap (g ++ g') := by
  induction h with
  | nil => exact h'
  | blank hc _ ih => exact .blank hc ih
  | comment hw _ ih =>
    rw [List.cons_append, List.append_assoc, List.cons_append]
    exact .comment hw ih

theorem not_goesOn (hblank : isBlank c = false) (hcom : c ≠ '%') : ¬ goesOn false c = true := by
  simp [goesOn, hblank, hcom]

/-- A gap is covered whole, up to a character that cannot stand in it. -/
theorem IsGap.covered_append (h : IsGap g) (hc : ¬ goesOn false c = true) (cs : List Char) :
    covered false (g ++ c :: cs) = g ∧ behind false (g ++ c :: cs) = c :: cs := by
  induction h with
  | nil => exact ⟨covered_stop hc cs, behind_stop hc cs⟩
  | @blank d ds hd _ ih =>
    obtain ⟨hgoes, hafter⟩ := goesOn_of_isBlank hd
    rw [List.cons_append, covered_cons hgoes, behind_cons hgoes, hafter, ih.1, ih.2]
    exact ⟨rfl, rfl⟩
  | @comment w ds hw _ ih =>
    have hline := covered_true_append hw (ds ++ c :: cs)
    rw [ih.1, ih.2] at hline
    rw [List.cons_append, List.append_assoc, List.cons_append, covered_cons rfl, behind_cons rfl]
    show '%' :: covered true (w ++ '\n' :: (ds ++ c :: cs)) = _ ∧
      behind true (w ++ '\n' :: (ds ++ c :: cs)) = _
    rw [hline.1, hline.2]
    exact ⟨rfl, rfl⟩

/-- A delimiter is found behind a gap or in one of its comments. -/
theorem IsGap.isSome_gapTo? (h : IsGap g) (hc : ¬ goesOn false c = true) (cs : List Char) :
    (gapTo? d (g ++ c :: cs)).isSome = true ↔ d ∈ g ∨ d = c := by
  obtain ⟨hcov, hbehind⟩ := h.covered_append hc cs
  rw [gapTo?_eq, hcov, hbehind, Option.isSome_iff_ne_none, Ne, upToLast?_eq_none_iff,
    Classical.not_not, List.mem_append]
  simp

theorem IsGap.isSome_blanksToComment? (h : IsGap g) (hblank : isBlank c = false) (hcom : c ≠ '%')
    (cs : List Char) : (blanksToComment? (g ++ c :: cs)).isSome = true ↔ '%' ∈ g := by
  have hcov := (h.covered_append (not_goesOn hblank hcom) cs).1
  constructor
  · intro hsome
    by_contra hnot
    rw [blanksToComment?_eq_none (by rwa [hcov])] at hsome
    cases hsome
  · intro hmem
    have hdrop : ∃ vs, (g ++ c :: cs).dropWhile isBlank = '%' :: vs := by
      clear hcov
      induction h with
      | nil => cases hmem
      | @blank d ds hd _ ih =>
        have hne : '%' ≠ d := by
          rintro rfl
          exact absurd hd (by decide)
        rw [List.cons_append, List.dropWhile_cons_of_pos hd]
        exact ih ((List.mem_cons.1 hmem).resolve_left hne)
      | comment _ _ _ => exact ⟨_, List.dropWhile_cons_of_neg (by decide)⟩
    obtain ⟨vs, hvs⟩ := hdrop
    rw [blanksToComment?, hvs]
    rfl

/-! ## Endings -/

theorem isReported_form (us : List Char) :
    isReported k ('\\' :: (k.name.toList ++ (us ++ [d]))) = !(k.isInclusion && d == '%') := by
  rw [← List.append_assoc, ← List.cons_append, isReported_concat]

theorem exists_of_starredGap? {part : List Char} (h : starredGap? cs = some part) :
    ∃ us, part = us ++ ['{'] := by
  rw [starredGap?] at h
  split at h
  · next taken rest _ =>
    obtain ⟨lead, hlead, rfl⟩ := Option.map_eq_some_iff.1 h
    obtain ⟨us, -, rfl, -⟩ := exists_of_gapTo? hlead
    exact ⟨taken ++ '*' :: us, by simp⟩
  · cases h

/-- The endings of a command are tried one after the other.  All but the last serve for
every command, and the last one for headings only. -/
theorem exists_isReported_iff :
    (∃ form, formAt? ('\\' :: (k.name.toList ++ cs)) = some (k, form) ∧
      isReported k form = true) ↔
    (starredGap? cs).isSome = true ∨ (gapTo? '{' cs).isSome = true ∨
      (gapTo? '[' cs).isSome = true ∨
      (blanksToComment? cs).isSome = true ∧ k.isInclusion = false := by
  rw [formAt?_command, ending?_eq]
  -- the first ending that there is decides
  cases hstar : starredGap? cs with
  | some part =>
    obtain ⟨us, rfl⟩ := exists_of_starredGap? hstar
    exact iff_of_true ⟨_, rfl, by rw [isReported_form]; simp⟩ (by simp)
  | none =>
    cases hbrace : gapTo? '{' cs with
    | some part =>
      obtain ⟨us, -, rfl, -⟩ := exists_of_gapTo? hbrace
      exact iff_of_true ⟨_, rfl, by rw [isReported_form]; simp⟩ (by simp)
    | none =>
      cases hbracket : gapTo? '[' cs with
      | some part =>
        obtain ⟨us, -, rfl, -⟩ := exists_of_gapTo? hbracket
        exact iff_of_true ⟨_, rfl, by rw [isReported_form]; simp⟩ (by simp)
      | none =>
        cases hcomment : blanksToComment? cs with
        | none => simp
        | some part =>
          have hpart : part = cs.takeWhile isBlank ++ ['%'] := by
            rw [blanksToComment?] at hcomment
            split at hcomment
            · exact (Option.some.inj hcomment).symm
            · cases hcomment
          simp [hpart, isReported_form]

/-- The text after the name of a command form, up to its delimiter. -/
def formTail (g : List Char) (starred : Bool) (g' : List Char) : List Char :=
  g ++ (if starred then '*' :: g' else g')

theorem exists_isReported_formTail_iff (hg : IsGap g) (hg' : IsGap g') (starred : Bool)
    (hd : d = '{' ∨ d = '[') :
    (∃ form, formAt? ('\\' :: (k.name.toList ++ (formTail g starred g' ++ d :: cs))) =
        some (k, form) ∧ isReported k form = true) ↔
      (starred = true → d = '[' →
        '{' ∈ g ∨ '{' ∈ g' ∨ '[' ∈ g ∨ '%' ∈ g ∧ k.isInclusion = false) := by
  have hstop : ¬ goesOn false d = true := by rcases hd with rfl | rfl <;> decide
  rw [exists_isReported_iff]
  cases starred with
  | false =>
    -- both gaps are one, and the delimiter stands behind it
    have hsome : (gapTo? d (g ++ g' ++ d :: cs)).isSome = true :=
      ((hg.append hg').isSome_gapTo? hstop cs).2 (Or.inr rfl)
    refine iff_of_true ?_ (by simp)
    rcases hd with rfl | rfl
    · exact Or.inr (Or.inl hsome)
    · exact Or.inr (Or.inr (Or.inl hsome))
  | true =>
    have htext : formTail g true g' ++ d :: cs = g ++ '*' :: (g' ++ d :: cs) := by
      simp [formTail]
    have hstar : ¬ goesOn false '*' = true := by decide
    rw [htext, starredGap?_star (hg.covered_append hstar _).2, Option.isSome_map,
      hg'.isSome_gapTo? hstop, hg.isSome_gapTo? hstar, hg.isSome_gapTo? hstar,
      hg.isSome_blanksToComment? (by decide) (by decide)]
    rcases hd with rfl | rfl
    · simp
    · simp
      tauto

end

/-! ## Scanning -/

section

variable {b : Buffer} {p : Position} {us vs : List Char} {k : Keyword}

/-- At a place that nothing covers scanning reports a command exactly if it has an
ending. -/
theorem mem_scan_iff (hs : b.Splits p us vs) (hfree : ∀ o ∈ scan b, ¬ o.Covers p) :
    (∃ o ∈ scan b, o.keyword = k ∧ o.range.start = p) ↔
      ∃ form, formAt? vs = some (k, form) ∧ isReported k form = true := by
  constructor
  · rintro ⟨o, ho, rfl, rfl⟩
    obtain ⟨us', vs', form, hs', hform, hreported, -⟩ := at_of_mem_scan ho
    obtain ⟨-, rfl⟩ := hs.unique hs'
    exact ⟨form, hform, hreported⟩
  · rintro ⟨form, hform, hreported⟩
    have hat : At b ⟨k, ⟨p, p.afterAll form⟩⟩ := ⟨us, vs, form, hs, hform, hreported, rfl⟩
    refine ⟨_, hat.mem_scan_or_covers.resolve_right ?_, rfl, rfl⟩
    rintro ⟨o, ho, hcovers⟩
    exact hfree o ho hcovers

/-- A command form that nothing covers is reported, unless it has a star and a bracket
and none of its comments helps. -/
theorem reported_iff {g g' cs : List Char} {d : Char} (starred : Bool) (hg : IsGap g)
    (hg' : IsGap g') (hd : d = '{' ∨ d = '[')
    (hs : b.Splits p us ('\\' :: (k.name.toList ++ (formTail g starred g' ++ d :: cs))))
    (hfree : ∀ o ∈ scan b, ¬ o.Covers p) :
    (∃ o ∈ scan b, o.keyword = k ∧ o.range.start = p) ↔
      (starred = true → d = '[' →
        '{' ∈ g ∨ '{' ∈ g' ∨ '[' ∈ g ∨ '%' ∈ g ∧ k.isInclusion = false) := by
  rw [mem_scan_iff hs hfree]
  exact exists_isReported_formTail_iff hg hg' starred hd

end

/-- A heading with a comment before its star, and a bracket. -/
def remarked : Buffer :=
  .ofString ⟨"main.tex"⟩ "so \\section % why\n *[a]{b}"

theorem reported_remarked :
    ∃ o ∈ scan remarked, o.keyword = .section ∧ o.range.start = ⟨0, 3⟩ := by
  have hcomment : IsGap ('%' :: (" why".toList ++ '\n' :: [' '])) :=
    .comment (by decide) (.blank rfl .nil)
  have hgap : IsGap " % why\n ".toList := .blank rfl hcomment
  have hs : remarked.Splits ⟨0, 3⟩ "so ".toList ('\\' :: (Keyword.section.name.toList ++
      (formTail " % why\n ".toList true [] ++ '[' :: "a]{b}".toList))) :=
    ⟨by decide, by decide⟩
  exact (reported_iff true hgap .nil (Or.inr rfl) hs (by decide +kernel)).2 (by decide)

/-- A starred command with a short title is not found. -/
theorem starred_bracket_not_reported :
    scan (.ofString ⟨"main.tex"⟩ "\\chapter*[a]{b}") = [] := by
  decide +kernel

end Occurrence
end Sectioning
