/-
What the cleaning of a title takes away.

A text that ends in plain reading, neither in a comment nor behind a backslash
that still waits for its character, is uncommented apart from what follows it
(`uncomment_append`).  So a comment can be taken out at any such place without
changing the clean title, and to write a title it is enough to escape its percent
signs (`clean_erases_comments`).
-/
import Sectioning.Proofs.LooseForms
import Sectioning.Proofs.Printed

namespace Sectioning
namespace Title

variable {us ws : List Char}

/-! ## Uncommenting in parts -/

theorem uncomment_comment_newline (hws : '\n' ∉ ws) (vs : List Char) :
    uncomment true (ws ++ '\n' :: vs) = '\n' :: uncomment false vs := by
  induction ws with
  | nil => rw [List.nil_append, uncomment, if_pos rfl]
  | cons w ws ih =>
    rw [List.mem_cons, not_or] at hws
    rw [List.cons_append, uncomment, if_neg (Ne.symm hws.1), ih hws.2]

theorem uncomment_comment (hws : '\n' ∉ ws) : uncomment true ws = [] := by
  induction ws with
  | nil => rfl
  | cons w ws ih =>
    rw [List.mem_cons, not_or] at hws
    rw [uncomment, if_neg (Ne.symm hws.1), ih hws.2]

/-- From a start inside or outside a comment: where the reading is plain again, it starts
afresh. -/
theorem uncomment_append_of_gapMark (inComment : Bool)
    (h : (Occurrence.gapMark inComment).after us = .plain) (vs : List Char) :
    uncomment inComment (us ++ vs) = uncomment inComment us ++ uncomment false vs := by
  fun_induction uncomment inComment us with
  | case1 inComment =>
    cases inComment with
    | true => cases h
    | false => rfl
  | case2 cs ih =>
    rw [List.cons_append, uncomment, if_pos rfl, ih h, List.cons_append]
  | case3 c cs hc ih =>
    have hstep : Mark.comment.after (c :: cs) = Mark.comment.after cs :=
      congrArg (Mark.after · cs) (Mark.next_comment hc)
    rw [List.cons_append, uncomment, if_neg hc, ih (hstep.symm.trans h)]
  | case4 => cases h
  | case5 cs ih =>
    rw [List.cons_append, List.cons_append, uncomment_escaped_percent, ih h, List.cons_append]
  | case6 c cs hc ih =>
    have hstep : Mark.plain.after ('\\' :: c :: cs) = Mark.plain.after cs :=
      congrArg (Mark.after · cs) (Mark.next_escaped c)
    rw [List.cons_append, List.cons_append, uncomment_escaped hc, ih (hstep.symm.trans h),
      List.cons_append, List.cons_append]
  | case7 cs _ _ ih =>
    rw [List.cons_append, uncomment_percent, ih h]
  | case8 c cs hone htwo hc ih =>
    have hesc : c ≠ '\\' := by
      rintro rfl
      cases cs with
      | nil => exact hone rfl rfl
      | cons d ds => exact htwo d ds rfl rfl
    have hstep : Mark.plain.after (c :: cs) = Mark.plain.after cs :=
      congrArg (Mark.after · cs) (Mark.next_of_ne (by decide) hesc hc)
    rw [List.cons_append, uncomment_of_ne hesc hc, ih (hstep.symm.trans h), List.cons_append]

theorem uncomment_append (h : Mark.plain.after us = .plain) (vs : List Char) :
    uncomment false (us ++ vs) = uncomment false us ++ uncomment false vs :=
  uncomment_append_of_gapMark false h vs

/-! ## Taking comments out -/

/-- A comment and the same place without it, before a line break. -/
theorem clean_comment_newline (hus : Mark.plain.after us = .plain) (hws : '\n' ∉ ws)
    (vs : List Char) : clean (us ++ '%' :: (ws ++ '\n' :: vs)) = clean (us ++ '\n' :: vs) := by
  have hbreak : uncomment false ('\n' :: vs) = '\n' :: uncomment false vs :=
    uncomment_of_ne (by decide) (by decide) vs
  rw [clean, clean, uncomment_append hus, uncomment_append hus, uncomment_percent,
    uncomment_comment_newline hws, hbreak]

/-- A comment and the same place without it, at the end of the title. -/
theorem clean_comment (hus : Mark.plain.after us = .plain) (hws : '\n' ∉ ws) :
    clean (us ++ '%' :: ws) = clean us := by
  rw [clean, clean, uncomment_append hus, uncomment_percent, uncomment_comment hws,
    List.append_nil]

/-- Cleaning takes comments out wherever they start, and a text with its percent signs
escaped loses nothing but blanks. -/
theorem clean_erases_comments :
    (∀ us ws vs : List Char, Mark.plain.after us = .plain → '\n' ∉ ws →
      clean (us ++ '%' :: (ws ++ '\n' :: vs)) = clean (us ++ '\n' :: vs) ∧
      clean (us ++ '%' :: ws) = clean us) ∧
    ∀ cs : List Char, '\\' ∉ cs →
      clean (Manuscript.escape cs) = Text.squeeze (Text.trim cs) := by
  refine ⟨fun us ws vs hus hws => ⟨clean_comment_newline hus hws vs, clean_comment hus hws⟩,
    fun cs hcs => ?_⟩
  rw [clean, Manuscript.uncomment_escape hcs, Text.collapse_eq_squeeze_trim]

/-- The text before the comment has a doubled backslash, another comment and an escaped
percent sign. -/
theorem clean_erases_remark :
    Mark.plain.after "a\\\\% b\n\\%\\\\".toList = .plain ∧
    clean "a\\\\% b\n\\%\\\\% c\n d".toList = clean "a\\\\% b\n\\%\\\\\n d".toList ∧
    clean "a\\\\% b\n\\%\\\\% c".toList = clean "a\\\\% b\n\\%\\\\".toList ∧
    clean (Manuscript.escape "\u2003 5% \t\u0085off".toList) = "5% off".toList := by
  have hplain : Mark.plain.after "a\\\\% b\n\\%\\\\".toList = .plain := by decide
  obtain ⟨hcomment, hescape⟩ := clean_erases_comments
  obtain ⟨hbefore, hend⟩ := hcomment _ " c".toList " d".toList hplain (by decide)
  refine ⟨hplain, hbefore, hend, ?_⟩
  rw [hescape _ (by decide)]
  decide

end Title
end Sectioning
