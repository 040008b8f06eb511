/-
Line ends made uniform.

A line end of two characters becomes one.  Nothing else changes, so the text keeps its
words, its balance and its other characters.
-/
import Sectioning.Proofs.Manuscript

namespace Sectioning
namespace Text

theorem unifyBreaks_cons {c : Char} {cs : List Char} (h : ∀ ds, cs ≠ '\n' :: ds) :
    unifyBreaks (c :: cs) = c :: unifyBreaks cs := by
  exact unifyBreaks.eq_3 c cs fun ds _ hds => h ds hds

/-- Text without line breaks stays as it is. -/
theorem unifyBreaks_append {us : List Char} (h : '\n' ∉ us) {vs : List Char}
    (hvs : ∀ ds, vs ≠ '\n' :: ds) : unifyBreaks (us ++ vs) = us ++ unifyBreaks vs := by
  induction us with
  | nil => rfl
  | cons u us ih =>
    rw [List.mem_cons, not_or] at h
    have hnext : ∀ ds, us ++ vs ≠ '\n' :: ds := by
      cases us with
      | nil => exact hvs
      | cons w us =>
        rw [List.mem_cons, not_or] at h
        intro ds hds
        exact h.2.1 (List.cons.inj hds).1.symm
    rw [List.cons_append, unifyBreaks_cons hnext, ih h.2]
    rfl

/-- A line break after a closing brace is kept. -/
theorem unifyBreaks_line {us : List Char} (h : '\n' ∉ us) (vs : List Char) :
    unifyBreaks (us ++ '}' :: '\n' :: vs) = us ++ '}' :: '\n' :: unifyBreaks vs := by
  rw [unifyBreaks_append h (by simp)]
  simp [unifyBreaks]

variable {c : Char} (cs : List Char)

theorem mem_of_mem_unifyBreaks (h : c ∈ unifyBreaks cs) : c ∈ cs := by
  fun_induction unifyBreaks cs with
  | case1 => exact h
  | case2 cs ih =>
    rcases List.mem_cons.1 h with rfl | h
    · simp
    · exact List.mem_cons_of_mem _ (List.mem_cons_of_mem _ (ih h))
  | case3 d ds _ ih =>
    rcases List.mem_cons.1 h with rfl | h
    · exact List.mem_cons_self
    · exact List.mem_cons_of_mem _ (ih h)

theorem isBalanced_unifyBreaks (k : Delimiter) (n : Nat) :
    k.isBalanced n (unifyBreaks cs) = k.isBalanced n cs := by
  fun_induction unifyBreaks cs generalizing n with
  | case1 => rfl
  | case2 cs ih =>
    rw [Delimiter.isBalanced_blank rfl, Delimiter.isBalanced_blank rfl,
      Delimiter.isBalanced_blank rfl, ih]
  | case3 c cs _ ih => simp only [Delimiter.isBalanced, ih]

theorem endsWord_unifyBreaks : endsWord (unifyBreaks cs) = endsWord cs := by
  fun_induction unifyBreaks cs with
  | case1 => rfl
  | case2 cs ih => rfl
  | case3 c cs _ ih => rfl

/-- The two characters of a line end are blank, so a title does not show them. -/
theorem words_unifyBreaks : words (unifyBreaks cs) = words cs := by
  fun_induction unifyBreaks cs with
  | case1 => rfl
  | case2 cs ih =>
    show words (['\n'] ++ unifyBreaks cs) = words (['\r', '\n'] ++ cs)
    rw [words_blanks rfl, words_blanks rfl, ih]
  | case3 c cs _ ih => rw [words, words, ih, endsWord_unifyBreaks]

theorem unifyBreaks_concat : unifyBreaks (cs ++ ['}']) = unifyBreaks cs ++ ['}'] := by
  fun_induction unifyBreaks cs with
  | case1 => rfl
  | case2 cs ih =>
    show '\n' :: unifyBreaks (cs ++ ['}']) = _
    rw [ih]
    rfl
  | case3 c cs hne ih =>
    rw [List.cons_append, unifyBreaks.eq_3, ih]
    · rfl
    · intro ds hc hds
      cases cs with
      | nil => simp at hds
      | cons d cs =>
        obtain ⟨rfl, -⟩ := List.cons.inj hds
        exact hne cs hc rfl

end Text
end Sectioning
