/-
Places of a buffer as the ends of beginnings of its text.

`Splits b p us vs` says that the text of `b` is `us ++ vs` and that `p` is the
place after `us`.  It is kept by reading one more character (`Splits.step`), and
it determines the line of `p`, its column and its offset (`Splits.drop_lines`,
`Splits.offset?`).  Every place between two characters of a line splits the text
(`exists_splits`), so the text between two such places can always be handed out
(`exists_splits_between`, `Splits.excerpt?`).
-/
import Mathlib.Data.List.Induction
import Sectioning.Proofs.LineStarts

namespace Sectioning

/-! ## Lines -/

namespace Text

/-- What stands after the last line break. -/
def lastLine (us : List Char) : List Char :=
  us.foldl (fun w c => if c = '\n' then [] else w ++ [c]) []

theorem lastLine_append_newline (us : List Char) : lastLine (us ++ ['\n']) = [] := by
  rw [lastLine, List.foldl_append]
  rfl

theorem lastLine_append_singleton (us : List Char) {c : Char} (hc : c ≠ '\n') :
    lastLine (us ++ [c]) = lastLine us ++ [c] := by
  rw [lastLine, List.foldl_append, List.foldl_cons, List.foldl_nil, if_neg hc]
  rfl

theorem notMem_lastLine (us : List Char) : '\n' ∉ lastLine us := by
  induction us using List.reverseRecOn with
  | nil => exact List.not_mem_nil
  | append_singleton us c ih =>
    by_cases hc : c = '\n'
    · subst hc
      rw [lastLine_append_newline]
      exact List.not_mem_nil
    · rw [lastLine_append_singleton us hc, List.mem_append, List.mem_singleton, not_or]
      exact ⟨ih, Ne.symm hc⟩

/-- The lines that end within `us` do not depend on what follows. -/
theorem exists_lines_append (us : List Char) :
    ∃ above : List (List Char), above.length = us.count '\n' ∧ ∀ vs l ls, lines vs = l :: ls →
      lines (us ++ vs) = above ++ (lastLine us ++ l) :: ls := by
  induction us using List.reverseRecOn with
  | nil => exact ⟨[], rfl, fun vs l ls h => h⟩
  | append_singleton us c ih =>
    obtain ⟨above, hlength, hlines⟩ := ih
    by_cases hc : c = '\n'
    · subst hc
      refine ⟨above ++ [lastLine us], by simp [hlength], fun vs l ls h => ?_⟩
      rw [List.append_assoc, List.singleton_append, hlines _ _ _ (lines_newline_cons vs), h,
        lastLine_append_newline, List.append_nil, List.append_assoc]
      rfl
    · refine ⟨above, by simp [hlength, hc], fun vs l ls h => ?_⟩
      rw [List.append_assoc, List.singleton_append, hlines _ _ _ (lines_cons hc h),
        lastLine_append_singleton us hc, List.append_assoc]
      rfl

end Text

/-! ## Moving over a text -/

namespace Position

theorem afterAll_append (p : Position) (us vs : List Char) :
    p.afterAll (us ++ vs) = (p.afterAll us).afterAll vs := by
  rw [afterAll, List.foldl_append]
  rfl

theorem afterAll_cons (p : Position) (c : Char) (cs : List Char) :
    p.afterAll (c :: cs) = (p.after c).afterAll cs := rfl

theorem afterAll_singleton (p : Position) (c : Char) : p.afterAll [c] = p.after c := rfl

theorem after_newline (p : Position) : p.after '\n' = ⟨p.row + 1, 0⟩ := by
  rw [after, if_pos rfl]

theorem after_of_ne (p : Position) {c : Char} (hc : c ≠ '\n') :
    p.after c = ⟨p.row, p.column + c.utf8Size⟩ := by
  rw [after, if_neg hc]

theorem afterAll_of_notMem {us : List Char} (hus : '\n' ∉ us) (p : Position) :
    p.afterAll us = ⟨p.row, p.column + Text.byteLength us⟩ := by
  induction us generalizing p with
  | nil => rfl
  | cons u us ih =>
    rw [List.mem_cons, not_or] at hus
    rw [afterAll_cons, after_of_ne p (Ne.symm hus.1), ih hus.2, Text.byteLength_cons,
      Nat.add_assoc]

theorem row_afterAll (us : List Char) (p : Position) :
    (p.afterAll us).row = p.row + us.count '\n' := by
  induction us generalizing p with
  | nil => rfl
  | cons u us ih =>
    rw [afterAll_cons, ih, List.count_cons]
    by_cases hu : u = '\n'
    · subst hu
      rw [after_newline, beq_self_eq_true, if_pos rfl]
      show p.row + 1 + us.count '\n' = _
      omega
    · rw [after_of_ne p hu, beq_false_of_ne hu, if_neg Bool.false_ne_true]
      rfl

theorem afterAll_succ_row (us : List Char) (r k : Nat) :
    afterAll ⟨r + 1, k⟩ us = ⟨(afterAll ⟨r, k⟩ us).row + 1, (afterAll ⟨r, k⟩ us).column⟩ := by
  induction us generalizing r k with
  | nil => rfl
  | cons u us ih =>
    rw [afterAll_cons, afterAll_cons]
    by_cases hu : u = '\n'
    · subst hu
      rw [after_newline, after_newline]
      exact ih (r + 1) 0
    · rw [after_of_ne _ hu, after_of_ne _ hu]
      exact ih r (k + u.utf8Size)

theorem lt_afterAll {us : List Char} (hus : us ≠ []) (p : Position) : p < p.afterAll us := by
  induction us generalizing p with
  | nil => exact absurd rfl hus
  | cons u us ih =>
    have hfirst : p < p.after u := by
      have hpos := u.utf8Size_pos
      by_cases hu : u = '\n'
      · subst hu
        rw [after_newline, lt_iff]
        exact Or.inl (Nat.lt_succ_self _)
      · rw [after_of_ne p hu, lt_iff]
        exact Or.inr ⟨rfl, by show p.column < p.column + u.utf8Size; omega⟩
    rw [afterAll_cons]
    by_cases hnil : us = []
    · subst hnil
      exact hfirst
    · have hrest := ih hnil (p.after u)
      rw [lt_iff] at hfirst hrest ⊢
      omega

theorem le_afterAll (us : List Char) (p : Position) : p ≤ p.afterAll us := by
  by_cases hus : us = []
  · subst hus
    exact Or.inr ⟨rfl, Nat.le_refl _⟩
  · have hlt := lt_afterAll hus p
    rw [lt_iff] at hlt
    rw [le_iff]
    omega

theorem lt_trichotomy (p q : Position) : p < q ∨ p = q ∨ q < p := by
  obtain ⟨r, k⟩ := p
  obtain ⟨r', k'⟩ := q
  simp only [lt_iff, mk.injEq]
  omega

end Position

/-! ## Splitting a buffer at a place -/

namespace Buffer

theorem drop_lines_eq {b : Buffer} {row : Nat} {l : List Char} (h : b.line? row = some l) :
    b.lines.drop row = l :: b.lines.drop (row + 1) := by
  obtain ⟨hlt, rfl⟩ := List.getElem?_eq_some_iff.1 h
  exact List.drop_eq_getElem_cons hlt

theorem line?_of_drop_lines {b : Buffer} {row : Nat} {l : List Char} {ls : List (List Char)}
    (h : b.lines.drop row = l :: ls) : b.line? row = some l := by
  rw [line?, ← Nat.add_zero row, ← List.getElem?_drop, h]
  rfl

/-- The text of `b` is `us ++ vs`, and `p` is the place between the two. -/
structure Splits (b : Buffer) (p : Position) (us vs : List Char) : Prop where
  text_eq : b.text = us ++ vs
  place_eq : p = Position.start.afterAll us

/-- The place `p` lies between two characters of a line, or at an end of it. -/
def IsBetween (b : Buffer) (p : Position) : Prop :=
  ∃ w x, b.line? p.row = some (w ++ x) ∧ p.column = Text.byteLength w

namespace Splits

variable {b : Buffer} {p q : Position} {us vs ws : List Char}

theorem start (b : Buffer) : b.Splits .start [] b.text :=
  ⟨rfl, rfl⟩

theorem step {c : Char} (h : b.Splits p us (c :: vs)) : b.Splits (p.after c) (us ++ [c]) vs := by
  refine ⟨?_, ?_⟩
  · rw [h.text_eq, List.append_assoc, List.singleton_append]
  · rw [Position.afterAll_append, ← h.place_eq]
    rfl

theorem steps (h : b.Splits p us (ws ++ vs)) : b.Splits (p.afterAll ws) (us ++ ws) vs := by
  refine ⟨?_, ?_⟩
  · rw [h.text_eq, List.append_assoc]
  · rw [Position.afterAll_append, ← h.place_eq]

/-- The lines from the row of `p` on, the column and the offset of `p`. -/
theorem lines_spec (us : List Char) : ∀ {vs l : List Char} {ls : List (List Char)} {p : Position},
    b.Splits p us vs → Text.lines vs = l :: ls →
      b.lines.drop p.row = (Text.lastLine us ++ l) :: ls ∧
      p.column = Text.byteLength (Text.lastLine us) ∧
      b.rowStart p.row + p.column = Text.byteLength us := by
  induction us using List.reverseRecOn with
  | nil =>
    intro vs l ls p h hl
    have hp : p = ⟨0, 0⟩ := h.place_eq
    subst hp
    refine ⟨?_, rfl, rfl⟩
    rw [List.drop_zero, b.lines_eq, h.text_eq, List.nil_append, hl]
    rfl
  | append_singleton us c ih =>
    intro vs l ls p h hl
    have hsplit : b.Splits (Position.start.afterAll us) us (c :: vs) :=
      ⟨by rw [h.text_eq, List.append_assoc, List.singleton_append], rfl⟩
    have hp : p = (Position.start.afterAll us).after c := by
      rw [h.place_eq, Position.afterAll_append]
      rfl
    generalize Position.start.afterAll us = q at hsplit hp
    subst hp
    by_cases hc : c = '\n'
    · -- the line of `us` ends here, and the next one starts
      subst hc
      obtain ⟨hdrop, hcol, hoff⟩ := ih hsplit (Text.lines_newline_cons vs)
      rw [List.append_nil] at hdrop
      rw [Position.after_newline, Text.lastLine_append_newline]
      refine ⟨?_, rfl, ?_⟩
      · show b.lines.drop (q.row + 1) = _
        rw [← List.drop_drop, hdrop, List.drop_succ_cons, List.drop_zero, hl, List.nil_append]
      · show b.rowStart (q.row + 1) + 0 = _
        have hget : b.line? q.row = some (Text.lastLine us) := line?_of_drop_lines hdrop
        rw [Text.byteLength_append, rowStart_succ hget, ← hoff, hcol]
        show _ = _ + (Char.utf8Size '\n' + 0)
        have : Char.utf8Size '\n' = 1 := by decide
        omega
    · obtain ⟨hdrop, hcol, hoff⟩ := ih hsplit (Text.lines_cons hc hl)
      rw [Position.after_of_ne _ hc, Text.lastLine_append_singleton us hc]
      refine ⟨?_, ?_, ?_⟩
      · show b.lines.drop q.row = _
        rw [hdrop, List.append_assoc, List.singleton_append]
      · show q.column + c.utf8Size = _
        rw [Text.byteLength_append, hcol]
        rfl
      · show b.rowStart q.row + (q.column + c.utf8Size) = _
        rw [Text.byteLength_append, ← hoff, ← Nat.add_assoc]
        rfl

theorem drop_lines {l : List Char} {ls : List (List Char)} (h : b.Splits p us vs)
    (hl : Text.lines vs = l :: ls) : b.lines.drop p.row = (Text.lastLine us ++ l) :: ls :=
  (lines_spec us h hl).1

theorem column_eq (h : b.Splits p us vs) : p.column = Text.byteLength (Text.lastLine us) := by
  obtain ⟨l, ls, hl⟩ := Text.exists_lines_eq_cons vs
  exact (lines_spec us h hl).2.1

theorem rowStart_add_column (h : b.Splits p us vs) :
    b.rowStart p.row + p.column = Text.byteLength us := by
  obtain ⟨l, ls, hl⟩ := Text.exists_lines_eq_cons vs
  exact (lines_spec us h hl).2.2

theorem line? {l : List Char} {ls : List (List Char)} (h : b.Splits p us vs)
    (hl : Text.lines vs = l :: ls) : b.line? p.row = some (Text.lastLine us ++ l) :=
  line?_of_drop_lines (h.drop_lines hl)

theorem isBetween (h : b.Splits p us vs) : b.IsBetween p := by
  obtain ⟨l, ls, hl⟩ := Text.exists_lines_eq_cons vs
  exact ⟨Text.lastLine us, l, h.line? hl, h.column_eq⟩

theorem offset? (h : b.Splits p us vs) : b.offset? p = some (Text.byteLength us) := by
  obtain ⟨l, ls, hl⟩ := Text.exists_lines_eq_cons vs
  have hle : p.column ≤ Text.byteLength (Text.lastLine us ++ l) := by
    rw [h.column_eq, Text.byteLength_append]
    omega
  exact offset?_eq_some_iff.2 ⟨_, h.line? hl, hle, h.rowStart_add_column.symm⟩

theorem positionAt? (h : b.Splits p us vs) : b.positionAt? (Text.byteLength us) = some p := by
  obtain ⟨l, ls, hl⟩ := Text.exists_lines_eq_cons vs
  have hle : p.column ≤ Text.byteLength (Text.lastLine us ++ l) := by
    rw [h.column_eq, Text.byteLength_append]
    omega
  rw [← h.rowStart_add_column]
  exact positionAt?_rowStart_add (h.line? hl) hle

theorem unique {us' vs' : List Char} (h : b.Splits p us vs) (h' : b.Splits p us' vs') :
    us = us' ∧ vs = vs' := by
  have hoff : Text.byteLength us = Text.byteLength us' := by
    rw [← h.rowStart_add_column, h'.rowStart_add_column]
  exact Text.append_inj_of_byteLength_eq (by rw [← h.text_eq, h'.text_eq]) hoff

/-- Of two places that split the text the first one cuts off less. -/
theorem exists_append_of_le {us' vs' : List Char} (h : b.Splits p us vs)
    (h' : b.Splits q us' vs') (hle : p ≤ q) : ∃ ws, us' = us ++ ws ∧ vs = ws ++ vs' := by
  have htext : us ++ vs = us' ++ vs' := by rw [← h.text_eq, h'.text_eq]
  rcases Nat.le_total (Text.byteLength us) (Text.byteLength us') with hb | hb
  · exact Text.exists_append_of_byteLength_le htext hb
  · obtain ⟨ws, hus, hvs'⟩ := Text.exists_append_of_byteLength_le htext.symm hb
    by_cases hws : ws = []
    · subst hws
      exact ⟨[], by simpa using hus.symm, by simpa using hvs'.symm⟩
    · have hlt : q < p := by
        rw [h.place_eq, hus, Position.afterAll_append, ← h'.place_eq]
        exact Position.lt_afterAll hws q
      rw [Position.lt_iff] at hlt
      rw [Position.le_iff] at hle
      omega

theorem lt_of_byteLength_lt {us' vs' : List Char} (h : b.Splits p us vs)
    (h' : b.Splits q us' vs') (hlt : Text.byteLength us < Text.byteLength us') : p < q := by
  have htext : us ++ vs = us' ++ vs' := by rw [← h.text_eq, h'.text_eq]
  obtain ⟨ws, rfl, -⟩ := Text.exists_append_of_byteLength_le htext (Nat.le_of_lt hlt)
  have hws : ws ≠ [] := by
    rintro rfl
    rw [List.append_nil] at hlt
    exact Nat.lt_irrefl _ hlt
  rw [h'.place_eq, Position.afterAll_append, ← h.place_eq]
  exact Position.lt_afterAll hws p

theorem excerpt? (h : b.Splits p us (ws ++ vs)) (h' : b.Splits q (us ++ ws) vs) :
    b.excerpt? ⟨p, q⟩ = some ws := by
  rw [Buffer.excerpt?, h.offset?, Option.bind_some, h'.offset?, Option.bind_some, h'.text_eq]
  exact Text.cut?_append us ws vs

end Splits

/-- A place between two characters of a line splits the text. -/
theorem exists_split_lines (r : Nat) : ∀ {cs w x : List Char},
    (Text.lines cs)[r]? = some (w ++ x) → ∃ us vs, cs = us ++ vs ∧
      Position.start.afterAll us = ⟨r, Text.byteLength w⟩ ∧
      Text.lines vs = x :: (Text.lines cs).drop (r + 1) := by
  induction r with
  | zero =>
    intro cs w x h
    obtain ⟨l, ls, hl⟩ := Text.exists_lines_eq_cons cs
    rw [hl] at h
    cases h
    obtain ⟨hnot, hcs⟩ := Text.lines_eq_cons hl
    rw [List.mem_append, not_or] at hnot
    have hplace : Position.start.afterAll w = ⟨0, Text.byteLength w⟩ := by
      rw [Position.afterAll_of_notMem hnot.1]
      simp [Position.start]
    rcases hcs with ⟨rfl, rfl⟩ | ⟨cs', rfl, rfl⟩
    · refine ⟨w, x, rfl, hplace, ?_⟩
      rw [Text.lines_of_notMem hnot.2, hl]
      rfl
    · refine ⟨w, x ++ '\n' :: cs', by rw [List.append_assoc], hplace, ?_⟩
      rw [Text.lines_append_newline hnot.2, hl]
      rfl
  | succ r ih =>
    intro cs w x h
    obtain ⟨l, ls, hl⟩ := Text.exists_lines_eq_cons cs
    rw [hl, List.getElem?_cons_succ] at h
    obtain ⟨hnot, ⟨rfl, rfl⟩ | ⟨cs', rfl, rfl⟩⟩ := Text.lines_eq_cons hl
    · simp at h
    · obtain ⟨us, vs, rfl, hplace, hvs⟩ := ih h
      refine ⟨l ++ '\n' :: us, vs, by rw [List.append_assoc, List.cons_append], ?_, ?_⟩
      · have hfirst : Position.start.afterAll l = ⟨0, Text.byteLength l⟩ := by
          rw [Position.afterAll_of_notMem hnot]
          simp [Position.start]
        rw [Position.afterAll_append, hfirst, Position.afterAll_cons, Position.after_newline,
          Position.afterAll_succ_row]
        show Position.mk ((Position.start.afterAll us).row + 1) (Position.start.afterAll us).column
          = _
        rw [hplace]
      · rw [hvs, hl]
        rfl

theorem IsBetween.exists_splits {b : Buffer} {p : Position} (h : b.IsBetween p) :
    ∃ us vs, b.Splits p us vs := by
  obtain ⟨w, x, hline, hcol⟩ := h
  rw [line?, b.lines_eq] at hline
  obtain ⟨us, vs, htext, hplace, -⟩ := exists_split_lines p.row hline
  refine ⟨us, vs, htext, ?_⟩
  rw [hplace, ← hcol]

/-- Two places between characters cut the text in three. -/
theorem exists_splits_between {b : Buffer} {p q : Position} (hp : b.IsBetween p)
    (hq : b.IsBetween q) : ∃ us ws vs, b.Splits (Range.between p q).start us (ws ++ vs) ∧
      b.Splits (Range.between p q).stop (us ++ ws) vs := by
  obtain ⟨us, vs, hus⟩ := hp.exists_splits
  obtain ⟨us', vs', hus'⟩ := hq.exists_splits
  by_cases hle : p ≤ q
  · obtain ⟨ws, rfl, rfl⟩ := hus.exists_append_of_le hus' hle
    rw [Range.between, if_pos hle]
    exact ⟨us, ws, vs', hus, hus'⟩
  · have hge : q ≤ p := by
      rw [Position.le_iff] at hle ⊢
      omega
    obtain ⟨ws, rfl, rfl⟩ := hus'.exists_append_of_le hus hge
    rw [Range.between, if_neg hle]
    exact ⟨us', ws, vs, hus', hus⟩

end Buffer
end Sectioning
