/-
Where the reader of groups and the reader of titles drift apart.

A title is cleaned with a backslash taking the very next character, a line break
included.  `Title.WellRead n cs` says that by these rules `cs` ends outside comments and
escapes and that its braces close the `n` groups that are open before it.  The reader that
looks for the closing brace does not see line breaks, so a backslash at the end of a line
takes the first character of the next filled line along.  A step of this kind drifts if
that character is a backslash, a percent sign or a brace.

Every other step is the same to both readers (`Step.wellRead_text_iff`), and after a step
that drifts the groups that one reader has open are not those of the other
(`Step.Drifts.not_wellRead`).
-/
import Sectioning.Proofs.Arguments

namespace Sectioning

namespace Mark

/-- The characters of a text outside escapes and comments. -/
def plainChars : Mark → List Char → List Char
  | _, [] => []
  | m, c :: cs => if m = plain then c :: plainChars (m.next c) cs else plainChars (m.next c) cs

theorem plainChars_comment {us : List Char} (hus : '\n' ∉ us) (vs : List Char) :
    plainChars comment (us ++ vs) = plainChars comment vs := by
  induction us with
  | nil => rfl
  | cons u us ih =>
    rw [List.mem_cons, not_or] at hus
    rw [List.cons_append, plainChars, if_neg (by decide), next_comment (Ne.symm hus.1), ih hus.2]

end Mark

namespace Title

/-- Whether a title ends outside comments and escapes and its braces outside them close
the `n` groups that are open before it, and no more. -/
def WellRead (n : Nat) (cs : List Char) : Prop :=
  Mark.plain.after cs = .plain ∧ Delimiter.brace.isBalanced n (Mark.plain.plainChars cs) = true

instance (n : Nat) (cs : List Char) : Decidable (WellRead n cs) :=
  inferInstanceAs (Decidable (_ ∧ _))

variable {n m : Nat} {c : Char} {cs w : List Char}

theorem wellRead_nil : WellRead n [] ↔ n = 0 := by
  simp [WellRead, Mark.after, Mark.plainChars, Delimiter.isBalanced]

theorem wellRead_char (hesc : c ≠ '\\') (hcom : c ≠ '%') (hclose : ¬ (c = '}' ∧ n = 0)) :
    WellRead n (c :: cs) ↔ WellRead (Delimiter.brace.depthAfter (.first c) n) cs := by
  have hnext : Mark.plain.next c = .plain := Mark.next_of_ne (by decide) hesc hcom
  rw [WellRead, WellRead, Mark.after_cons, hnext, Mark.plainChars, if_pos rfl, hnext,
    Delimiter.isBalanced_cons hclose]

theorem not_wellRead_close : ¬ WellRead 0 ('}' :: cs) := by
  rintro ⟨-, hbalanced⟩
  rw [Mark.plainChars, if_pos rfl] at hbalanced
  cases (Delimiter.isBalanced_close .brace _).symm.trans hbalanced

theorem wellRead_escape : WellRead n ('\\' :: c :: cs) ↔ WellRead n cs := by
  have hnext : Mark.plain.next '\\' = .escaped := by decide
  rw [WellRead, WellRead, Mark.after_cons, Mark.after_cons, hnext, Mark.next_escaped,
    Mark.plainChars, if_pos rfl, hnext, Mark.plainChars, if_neg (by decide), Mark.next_escaped,
    Delimiter.isBalanced, if_neg (by decide), if_neg (by decide)]

theorem wellRead_comment (hw : '\n' ∉ w) :
    WellRead n ('%' :: (w ++ '\n' :: cs)) ↔ WellRead n cs := by
  have hnext : Mark.plain.next '%' = .comment := by decide
  rw [WellRead, WellRead, Mark.after_cons, hnext, Mark.after_append, Mark.after_comment hw,
    Mark.after_cons, Mark.next_newline, Mark.plainChars, if_pos rfl, hnext,
    Mark.plainChars_comment hw, Mark.plainChars, if_neg (by decide), Mark.next_newline,
    Delimiter.isBalanced, if_neg (by decide), if_neg (by decide)]

theorem not_wellRead_comment (hw : '\n' ∉ w) : ¬ WellRead n ('%' :: w) := by
  rintro ⟨hends, -⟩
  rw [Mark.after_cons, show Mark.plain.next '%' = .comment by decide,
    Mark.after_comment hw] at hends
  cases hends

theorem wellRead_blanks {bs : List Char} (hbs : Text.isAllBlank bs = true) :
    WellRead n (bs ++ cs) ↔ WellRead n cs := by
  induction bs with
  | nil => rfl
  | cons b bs ih =>
    rw [Text.isAllBlank, List.all_cons, Bool.and_eq_true] at hbs
    obtain ⟨hcloser, hopener⟩ := Delimiter.brace.ne_of_isBlank hbs.1
    rw [List.cons_append, wellRead_char (ne_of_isBlank hbs.1 rfl) (ne_of_isBlank hbs.1 rfl)
      (fun h => hcloser h.1), Delimiter.depthAfter_of_ne hcloser hopener, ih hbs.2]

/-- Closing braces close as many groups as they are. -/
theorem wellRead_replicate : WellRead n (List.replicate m '}') ↔ n = m := by
  induction m generalizing n with
  | zero => exact wellRead_nil
  | succ m ih =>
    rw [List.replicate_succ]
    cases n with
    | zero =>
      have hne : 0 ≠ m + 1 := by omega
      exact iff_of_false not_wellRead_close hne
    | succ n =>
      rw [wellRead_char (by decide) (by decide) (by simp)]
      show WellRead n _ ↔ _
      rw [ih, Nat.succ.injEq]

end Title

namespace Step

open Title

variable {n : Nat} {s : Step} {ss ts : List Step} {cs rest raw : List Char}

/-- Whether a step takes along a character of the next line that means something to the
reader of titles. -/
def Drifts : Step → Prop
  | char _ _ _ => False
  | escape _ _ => False
  | comment _ _ => False
  | carry _ _ c _ => c = '\\' ∨ c = '%' ∨ c = '{' ∨ c = '}'

/-- The text of the steps `ss` with the groups closed that are open after them. -/
def closing (ss : List Step) : List Char :=
  texts ss ++ List.replicate (depthAfterAll .brace 0 ss) '}'

theorem wellRead_carry {bs : List Char} (hbs : Text.IsBlankLines bs) (c : Char)
    (cs : List Char) :
    WellRead n ('\\' :: '\n' :: (bs ++ c :: cs)) ↔ WellRead n (c :: cs) := by
  rw [wellRead_escape, wellRead_blanks hbs.isAllBlank]

/-- A step that does not drift is the same to both readers. -/
theorem wellRead_text_iff (hs : ¬ s.Drifts) (h : s.Goes .brace n rest) (cs : List Char) :
    WellRead n (s.text ++ cs) ↔ WellRead (s.depthAfter .brace n) cs := by
  cases s with
  | char c hesc hcom => exact wellRead_char hesc hcom h
  | escape c hbreak => exact wellRead_escape
  | comment w hbreak =>
    rw [text, List.cons_append, List.append_assoc]
    exact wellRead_comment hbreak
  | carry bs hbs c hbreak =>
    rw [Drifts, not_or, not_or, not_or] at hs
    obtain ⟨hesc, hcom, hopener, hcloser⟩ := hs
    rw [text, List.cons_append, List.cons_append, List.append_assoc, List.singleton_append,
      wellRead_carry hbs, wellRead_char hesc hcom (fun h => hcloser h.1),
      Delimiter.depthAfter_of_ne hcloser hopener]
    rfl

theorem wellRead_texts_iff (hss : ∀ s ∈ ss, ¬ s.Drifts) (h : Passes .brace rest n ss)
    (cs : List Char) :
    WellRead n (texts ss ++ cs) ↔ WellRead (depthAfterAll .brace n ss) cs := by
  induction ss generalizing n with
  | nil => rfl
  | cons s ss ih =>
    rw [List.forall_mem_cons] at hss
    rw [texts_cons, List.append_assoc, wellRead_text_iff hss.1 h.1, ih hss.2 h.2]
    rfl

/-- After a step that drifts the open groups of the two readers differ. -/
theorem Drifts.not_wellRead (hs : s.Drifts) :
    ¬ WellRead n (s.text ++ List.replicate n '}') := by
  cases s with
  | char c hesc hcom => exact hs.elim
  | escape c hbreak => exact hs.elim
  | comment w hbreak => exact hs.elim
  | carry bs hbs c hbreak =>
    rw [text, List.cons_append, List.cons_append, List.append_assoc, List.singleton_append,
      wellRead_carry hbs]
    rcases hs with rfl | rfl | rfl | rfl
    · -- the backslash escapes one of the closing braces, or ends the text
      cases n with
      | zero =>
        rintro ⟨hends, -⟩
        cases hends
      | succ n =>
        rw [List.replicate_succ, wellRead_escape, wellRead_replicate]
        omega
    · exact not_wellRead_comment (by simp)
    · rw [wellRead_char (by decide) (by decide) (by simp)]
      show ¬ WellRead (n + 1) _
      rw [wellRead_replicate]
      omega
    · cases n with
      | zero => exact not_wellRead_close
      | succ n =>
        rw [wellRead_char (by decide) (by decide) (by simp)]
        show ¬ WellRead n _
        rw [wellRead_replicate]
        omega

/-! ## Closings -/

theorem passes_replicate (n : Nat) (rest : List Char) :
    Passes .brace rest n (List.replicate n (char '}' (by decide) (by decide))) ∧
      depthAfterAll .brace n (List.replicate n (char '}' (by decide) (by decide))) = 0 := by
  induction n with
  | zero => exact ⟨trivial, rfl⟩
  | succ n ih =>
    rw [List.replicate_succ]
    have hgoes : ¬ ('}' = Delimiter.brace.closer ∧ n + 1 = 0) := by simp
    exact ⟨⟨hgoes, ih.1⟩, ih.2⟩

theorem texts_replicate (n : Nat) :
    texts (List.replicate n (char '}' (by decide) (by decide))) = List.replicate n '}' := by
  induction n with
  | zero => rfl
  | succ n ih =>
    rw [List.replicate_succ, texts_cons, ih]
    rfl

theorem Reads.closing_eq (h : Reads ss raw) : closing ss = raw := by
  rw [closing, h.spans.closed, List.replicate_zero, List.append_nil, h.text_eq]

/-- The beginnings of an argument are arguments when their groups are closed. -/
theorem Reads.exists_reads_closing (h : Reads ss raw) (hts : ts <+: ss) :
    ∃ us, Reads us (closing ts) := by
  obtain ⟨ts', rfl⟩ := hts
  let n := depthAfterAll .brace 0 ts
  let closers := List.replicate n (char '}' (by decide) (by decide))
  have hclosers : texts closers ++ ['}'] = '}' :: List.replicate n '}' := by
    rw [texts_replicate, ← List.replicate_succ', List.replicate_succ]
  have hpasses : Passes .brace (texts closers ++ ['}']) 0 ts := by
    rw [hclosers]
    exact (passes_append.1 h.spans.passes).1.of_filled rfl _
  have hclosed := passes_replicate n ['}']
  refine ⟨ts ++ closers, ⟨?_, passes_append.2 ⟨hpasses, hclosed.1⟩, ?_⟩, ?_⟩
  · rw [closing, texts_append, texts_replicate]
    rfl
  · rw [depthAfterAll_append]
    exact hclosed.2
  · have hhead := h.head?_ne
    rw [h.text_eq, texts_append] at hhead
    rw [closing]
    cases htext : texts ts with
    | nil =>
      show (List.replicate n '}').head? ≠ some '\n'
      cases n <;> simp [List.replicate_succ]
    | cons c us =>
      rw [htext] at hhead
      exact hhead

theorem Reads.wellRead_closing (h : Reads ss raw) (hts : ts <+: ss)
    (hcalm : ∀ s ∈ ts, ¬ s.Drifts) : WellRead 0 (closing ts) := by
  obtain ⟨ts', rfl⟩ := hts
  rw [closing, wellRead_texts_iff hcalm (passes_append.1 h.spans.passes).1, wellRead_replicate]

/-- Along the steps of an argument the first one that drifts shows. -/
theorem Reads.not_drifts (h : Reads ss raw) (hwell : ∀ ts, ts <+: ss → WellRead 0 (closing ts))
    (hts : ts <+: ss) : ∀ s ∈ ts, ¬ s.Drifts := by
  induction ts using List.reverseRecOn with
  | nil => simp
  | append_singleton ts s ih =>
    have hcalm := ih ((List.prefix_append ts [s]).trans hts)
    have hs : ¬ s.Drifts := by
      intro hdrifts
      have hdepth : depthAfterAll .brace 0 (ts ++ [s]) = depthAfterAll .brace 0 ts := by
        rw [depthAfterAll_append]
        cases s with
        | carry bs hbs c hbreak => rfl
        | char c hesc hcom => exact hdrifts.elim
        | escape c hbreak => exact hdrifts.elim
        | comment w hbreak => exact hdrifts.elim
      have hclosing := hwell (ts ++ [s]) hts
      obtain ⟨ts', rfl⟩ := hts
      have hpasses := (passes_append.1 (passes_append.1 h.spans.passes).1).1
      rw [closing, hdepth, texts_append, List.append_assoc, wellRead_texts_iff hcalm hpasses,
        texts_cons, texts, List.flatMap_nil, List.append_nil] at hclosing
      exact hdrifts.not_wellRead hclosing
    intro t ht
    rcases List.mem_append.1 ht with ht | ht
    · exact hcalm t ht
    · rw [List.mem_singleton.1 ht]
      exact hs

end Step

namespace Title

variable {b : Buffer} {o : Occurrence} {r : Range} {raw : List Char}

/-- The steps through an argument exist, and its beginnings with their groups closed are
arguments too.  All of these are read in the same way by both readers exactly if no step
drifts. -/
theorem wellRead_closings_iff (h : o.argument? b = some r) (hraw : b.excerpt? r = some raw) :
    (∃ ss, Step.Reads ss raw) ∧ ∀ ss, Step.Reads ss raw →
      Step.closing ss = raw ∧
      (∀ ts, ts <+: ss → IsArgument (Step.closing ts)) ∧
      ((∀ ts, ts <+: ss → WellRead 0 (Step.closing ts)) ↔ ∀ s ∈ ss, ¬ s.Drifts) := by
  refine ⟨Occurrence.exists_reads h hraw, fun ss hss => ⟨hss.closing_eq, ?_, ?_, ?_⟩⟩
  · intro ts hts
    obtain ⟨us, hus⟩ := hss.exists_reads_closing hts
    exact hus.isArgument
  · intro hwell
    exact hss.not_drifts hwell List.prefix_rfl
  · intro hcalm ts hts
    exact hss.wellRead_closing hts fun s hs => hcalm s (hts.subset hs)

/-- A heading with a backslash at the end of a line and a letter after it. -/
def calm : Buffer :=
  .ofString ⟨"main.tex"⟩ "\\section\x7ba\\\nb\x7d"

theorem wellRead_calm : WellRead 0 "a\\\nb".toList := by
  have hargument : (Occurrence.mk .section ⟨⟨0, 0⟩, ⟨0, 9⟩⟩).argument? calm =
      some ⟨⟨0, 9⟩, ⟨1, 1⟩⟩ := by decide +kernel
  have hraw : calm.excerpt? ⟨⟨0, 9⟩, ⟨1, 1⟩⟩ = some "a\\\nb".toList := by decide +kernel
  have hreads : Step.Reads [.char 'a' (by decide) (by decide), .carry [] .nil 'b' (by decide)]
      "a\\\nb".toList :=
    ⟨⟨by decide, by decide, by decide⟩, by decide⟩
  obtain ⟨hclosing, -, hwell⟩ := (wellRead_closings_iff hargument hraw).2 _ hreads
  have hcalm := hwell.2 (by simp [Step.Drifts]) _ List.prefix_rfl
  rwa [hclosing] at hcalm

/-- A heading with a backslash at the end of a line and a closing brace after it. -/
def adrift : Buffer :=
  .ofString ⟨"main.tex"⟩ "\\section\x7ba\\\n\x7db\x7d"

/-- The closing brace after the backslash belongs to the argument and closes nothing. -/
theorem argument_not_wellRead :
    (Occurrence.mk .section ⟨⟨0, 0⟩, ⟨0, 9⟩⟩).argument? adrift = some ⟨⟨0, 9⟩, ⟨1, 2⟩⟩ ∧
      adrift.excerpt? ⟨⟨0, 9⟩, ⟨1, 2⟩⟩ = some "a\\\n\x7db".toList ∧
      ¬ WellRead 0 "a\\\n\x7db".toList := by
  decide +kernel

end Title
end Sectioning
