/-
How scanning passes over a text.

A form covers its own text, and a text without a backslash holds no form.  The
same is true of a text in which every backslash stands before a percent sign.
-/
import Sectioning.Command.Occurrence
import Sectioning.Proofs.Places

namespace Sectioning
namespace Occurrence

/-! ## Forms -/

theorem keywordAt?_name (k : Keyword) (cs : List Char) :
    keywordAt? (k.name.toList ++ cs) = some k := by
  cases k <;> simp [keywordAt?, Keyword.all, Keyword.name, List.isPrefixOf]

theorem keywordAt?_percent (cs : List Char) : keywordAt? ('%' :: cs) = none := by
  simp [keywordAt?, Keyword.all, Keyword.name, List.isPrefixOf]

theorem formAt?_command (k : Keyword) (cs : List Char) :
    formAt? ('\\' :: (k.name.toList ++ cs)) =
      (ending? cs).map fun part => (k, '\\' :: (k.name.toList ++ part)) := by
  rw [formAt?, keywordAt?_name, Option.bind_some]
  show Option.map _ (ending? ((k.name.toList ++ cs).drop k.name.toList.length)) = _
  rw [List.drop_left]

theorem formAt?_of_ne {c : Char} (hc : c ≠ '\\') (cs : List Char) : formAt? (c :: cs) = none := by
  unfold formAt?
  split
  · next h => exact absurd (List.cons.inj h).1 hc
  · rfl

theorem ending?_brace (cs : List Char) : ending? ('{' :: cs) = some ['{'] := by
  simp [ending?, starredGap?, gapTo?, gap, isBlank, upToLast?]

theorem ending?_star_brace (cs : List Char) : ending? ('*' :: '{' :: cs) = some ['*', '{'] := by
  simp [ending?, starredGap?, gapTo?, gap, isBlank, upToLast?]

theorem ending?_bracket (cs : List Char) : ending? ('[' :: cs) = some ['['] := by
  simp [ending?, starredGap?, gapTo?, gap, isBlank, upToLast?]

theorem delimiter_eq {o : Occurrence} {lead : List Char} {d : Char}
    (h : o.range.stop = o.range.start.afterAll (lead ++ [d])) (hd : d ≠ '\n')
    (hsize : d.utf8Size = 1) : o.delimiter = o.range.start.afterAll lead := by
  rw [delimiter, h, Position.afterAll_append, Position.afterAll_singleton,
    Position.after_of_ne _ hd, hsize]
  rfl

/-! ## Scanning -/

theorem scanFrom_covered (us : List Char) (p : Position) (vs : List Char) :
    scanFrom us.length p (us ++ vs) = scanFrom 0 (p.afterAll us) vs := by
  induction us generalizing p with
  | nil => rfl
  | cons u us ih =>
    rw [List.length_cons, List.cons_append, scanFrom, ih, Position.afterAll_cons]

theorem scanFrom_of_formAt?_eq_none {c : Char} {cs : List Char} (h : formAt? (c :: cs) = none)
    (p : Position) : scanFrom 0 p (c :: cs) = scanFrom 0 (p.after c) cs := by
  rw [scanFrom, h]

/-- A form is reported, and scanning goes on behind it. -/
theorem scanFrom_form {k : Keyword} {form vs : List Char}
    (hform : formAt? (form ++ vs) = some (k, form))
    (hreported : isReported k form = true) (p : Position) :
    scanFrom 0 p (form ++ vs) =
      ⟨k, ⟨p, p.afterAll form⟩⟩ :: scanFrom 0 (p.afterAll form) vs := by
  cases form with
  | nil =>
    cases vs with
    | nil => cases hform
    | cons v vs =>
      unfold formAt? at hform
      split at hform
      · obtain ⟨k', -, h⟩ := Option.bind_eq_some_iff.1 hform
        simp at h
      · cases hform
  | cons c form =>
    rw [List.cons_append] at hform ⊢
    rw [scanFrom, hform]
    simp only [hreported, if_true, List.length_cons, Nat.add_sub_cancel, scanFrom_covered]
    rfl

theorem scanFrom_of_notMem {us : List Char} (hus : '\\' ∉ us) (p : Position) (vs : List Char) :
    scanFrom 0 p (us ++ vs) = scanFrom 0 (p.afterAll us) vs := by
  induction us generalizing p with
  | nil => rfl
  | cons u us ih =>
    rw [List.mem_cons, not_or] at hus
    rw [List.cons_append, scanFrom_of_formAt?_eq_none (formAt?_of_ne (Ne.symm hus.1) _),
      ih hus.2, Position.afterAll_cons]

end Occurrence
end Sectioning
