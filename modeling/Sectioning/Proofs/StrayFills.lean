/-
Readers that stray, and what they find in the comment.

A reader that strays comes to a backslash that takes the percent sign of a comment
along, at a depth that does not depend on the comments (`Cursor.Strays.exists_escape`).
From there it reads the comment.  Enough closing delimiters end the group in it
(`Cursor.matchClose?_closers`).  With more opening delimiters than the text has
closing ones the group never ends (`Cursor.matchClose?_openers`).
-/
import Sectioning.Proofs.Fills

namespace Sectioning

namespace Text

/-- The line of a comment ends with what the comment is filled with. -/
theorem exists_lines_refill_comment {w : List Char} (hw : '\n' ∉ w) (vs : List Char) :
    ∃ more ls, refill w .comment vs = w ++ more ∧ lines (w ++ more) = w :: ls := by
  induction vs with
  | nil => exact ⟨[], [], by simp [refill], by rw [List.append_nil, lines_of_notMem hw]⟩
  | cons v vs ih =>
    by_cases hv : v = '\n'
    · subst hv
      exact ⟨'\n' :: refill w .plain vs, _, refill_comment_newline w vs,
        lines_append_newline hw _⟩
    · rw [refill_comment_cons w hv]
      exact ih

/-- Filling comments adds no character that is not in the filling. -/
theorem count_refill_le {w : List Char} {c : Char} (hw : c ∉ w) (m : Mark) (cs : List Char) :
    (refill w m cs).count c ≤ cs.count c := by
  have hzero : w.count c = 0 := List.count_eq_zero.2 hw
  induction cs generalizing m with
  | nil =>
    by_cases hm : m = .comment
    · rw [refill, if_pos hm, hzero]
      exact Nat.zero_le _
    · rw [refill_nil w hm]
  | cons d ds ih =>
    by_cases hm : m = .comment
    · subst hm
      by_cases hd : d = '\n'
      · subst hd
        have hrest := ih .plain
        rw [refill_comment_newline, List.count_append, hzero, List.count_cons, List.count_cons]
        omega
      · rw [refill_comment_cons w hd]
        exact Nat.le_trans (ih .comment) (List.count_le_count_cons)
    · have hrest := ih (m.next d)
      rw [refill_cons w hm, List.count_cons, List.count_cons]
      omega

theorem count_flatten_lines_le (c : Char) (cs : List Char) :
    (lines cs).flatten.count c ≤ cs.count c := by
  induction cs with
  | nil => simp [lines, split]
  | cons d ds ih =>
    by_cases hd : d = '\n'
    · subst hd
      rw [lines_newline_cons, List.flatten_cons, List.nil_append]
      exact Nat.le_trans ih List.count_le_count_cons
    · obtain ⟨l, ls, hl⟩ := exists_lines_eq_cons ds
      rw [hl, List.flatten_cons] at ih
      rw [lines_cons hd hl, List.flatten_cons, List.cons_append, List.count_cons, List.count_cons]
      omega

theorem count_octets (c : Char) (cs : List Char) : (octets cs).count (.first c) = cs.count c := by
  induction cs with
  | nil => rfl
  | cons d ds ih =>
    have hlater : (laterOctets d).count (.first c) = 0 :=
      List.count_eq_zero.2 (first_notMem_laterOctets d c)
    rw [octets, List.count_cons, List.count_append, hlater, ih, List.count_cons, Nat.zero_add]
    simp

end Text

namespace Cursor

variable {b b' : Buffer} {c c' d d' : Cursor} {k : Delimiter} {n : Nat}

/-! ## From the start of a group to the comment -/

/-- The reader of a group that strays comes to a backslash that takes a percent
sign along, in every buffer at the same place and depth. -/
theorem Strays.exists_escape (hc : c.Strays b k n) :
    ∃ m d, d.Escapes b ∧ ∀ b' c', b.Alike b' → Tracks b b' c c' →
      ∃ d', Tracks b b' d d' ∧ c'.position ≤ d'.position ∧
        matchClose? k n c' = matchClose? k m d' := by
  have hstop : ∀ {n : Nat} {c : Cursor}, c.Escapes b →
      ∃ m d, d.Escapes b ∧ ∀ b' c', b.Alike b' → Tracks b b' c c' →
        ∃ d', Tracks b b' d d' ∧ c'.position ≤ d'.position ∧
          matchClose? k n c' = matchClose? k m d' := fun {n c} hesc =>
    ⟨n, c, hesc, fun _ c' _ t => ⟨c', t, Or.inr ⟨rfl, Nat.le_refl _⟩, rfl⟩⟩
  induction hc with
  | here hesc => exact hstop hesc
  | @onward n c e hclose he _ ih =>
    by_cases hesc : c.Escapes b
    · exact hstop hesc
    · obtain ⟨m, d, hd, hread⟩ := ih
      refine ⟨m, d, hd, fun b' c' h t => ?_⟩
      have hstep := t.onward? h hesc
      rw [he] at hstep
      obtain ⟨e', he', t'⟩ := exists_of_rel_some hstep
      obtain ⟨d', td, hle, hfind⟩ := hread b' e' h t'
      refine ⟨d', td, ?_, ?_⟩
      · have hlt := (t.on'.onward? he').2
        rw [Position.lt_iff] at hlt
        rw [Position.le_iff] at hle ⊢
        omega
      · rw [matchClose?_eq, t.octet_eq h, if_neg hclose, he', Option.bind_some, hfind]

/-- A reader beside one that a backslash leads to a comment is led to it too. -/
theorem Escapes.exists_percent (h : b.Alike b') (hd : d.Escapes b) (t : Tracks b b' d d') :
    ∃ e e' us vs, d'.advance? = some e' ∧ Tracks b b' e e' ∧
      b.Splits e.position us ('%' :: vs) ∧ Mark.plain.after us = .plain := by
  obtain ⟨hesc, e, he, hcom, hgenuine⟩ := hd
  have hstep := t.advance? h fun hcomment => by
    rw [hesc] at hcomment
    exact absurd hcomment.1 (by decide)
  rw [he] at hstep
  obtain ⟨e', he', te⟩ := exists_of_rel_some hstep
  obtain ⟨us, vs, hs⟩ := te.on.exists_splits hcom
  exact ⟨e, e', us, vs, he', te, hs, hs.isGenuine_iff.1 hgenuine⟩

/-- A backslash that takes the percent sign of a comment along leads to what the
comment is filled with. -/
theorem Escapes.exists_fill {w : List Char} (hw : '\n' ∉ w) (hd : d.Escapes b)
    (t : Tracks b (b.refill w) d d') :
    ∃ p us more ls, (b.refill w).Splits p us (w ++ more) ∧ Text.lines (w ++ more) = w :: ls ∧
      d'.position < p ∧
      ∀ k n, matchClose? k n d' = (before? p w ls).bind (matchClose? k n) := by
  have halike := b.alike_refill hw
  have hesc : d'.octet = .first '\\' := by rw [t.octet_eq halike, hd.1]
  obtain ⟨e, e', us, vs, he', te, hs, hplain⟩ := hd.exists_percent halike t
  have hs' := hs.refill hw (by rw [hplain]; simp)
  rw [hplain, Text.refill_cons w (by simp)] at hs'
  change (b.refill w).Splits _ _ ('%' :: Text.refill w .comment vs) at hs'
  obtain ⟨more, ls, hmore, hls⟩ := Text.exists_lines_refill_comment hw vs
  rw [hmore] at hs'
  -- the reader on the percent sign is the one that the buffer hands out there
  have hcursor := hs'.cursorAt? (by decide) hls
  rw [Buffer.cursorAt?_eq_some_iff.2 ⟨te.position_eq, te.on'⟩, Option.some.injEq] at hcursor
  have hnext : e'.advance? = before? (e.position.after '%') w ls := by
    have hafter := advanceBy?_before e.position '%' w ls
    rw [show Char.utf8Size '%' = 1 from rfl, advanceBy?] at hafter
    rw [hcursor, Position.after_of_ne _ (by decide), show Char.utf8Size '%' = 1 from rfl,
      ← hafter]
    cases (before e.position '%' w ls).advance? <;> rfl
  refine ⟨e.position.after '%', _, more, ls, hs'.step, hls, ?_, fun k n => ?_⟩
  · have hlt := (t.on'.advance? he').2
    have hafter := Position.lt_afterAll (List.cons_ne_nil '%' []) e.position
    rw [te.position_eq, Position.lt_iff] at hlt
    rw [Position.afterAll_singleton, Position.lt_iff] at hafter
    rw [Position.lt_iff]
    omega
  · have hclose : ¬ (d'.octet = .first k.closer ∧ n = 0) := by
      rw [hesc]
      cases k <;> simp [Delimiter.closer]
    have hdepth : k.depthAfter d'.octet n = n := by
      rw [hesc]
      cases k <;> simp [Delimiter.depthAfter, Delimiter.closer, Delimiter.opener]
    rw [matchClose?_eq, if_neg hclose, hdepth, Cursor.onward?, if_pos hesc, he', Option.bind_some,
      hnext]

/-! ## Closing delimiters in the comment -/

/-- Enough closing delimiters close the group, the last of them. -/
theorem matchClose?_closers (k : Delimiter) (n : Nat) (p : Position) (cs : List Char)
    (below : List (List Char)) :
    (before? p (List.replicate (n + 1) k.closer ++ cs) below).bind (matchClose? k n) =
      some (before (p.afterAll (List.replicate n k.closer)) k.closer cs below) := by
  induction n generalizing p with
  | zero => exact matchClose?_close k p cs below
  | succ n ih =>
    have hcloser : k.closer ≠ '\\' ∧ k.closer ≠ '%' ∧ k.closer ≠ '\n' ∧
        k.closer.utf8Size = 1 := by cases k <;> decide
    have hdepth : k.depthAfter (.first k.closer) (n + 1) = n := by simp [Delimiter.depthAfter]
    show matchClose? k (n + 1) (before p k.closer (List.replicate (n + 1) k.closer ++ cs) below) = _
    rw [matchClose?_char hcloser.1 hcloser.2.1 (by simp), hdepth, ih, List.replicate_succ,
      Position.afterAll_cons, Position.after_of_ne p hcloser.2.2.1]

/-! ## Opening delimiters in the comment -/

/-- The number of closing delimiters from the cursor on. -/
def closersAhead (k : Delimiter) (c : Cursor) : Nat :=
  (c.octet :: c.rest).count (.first k.closer) + c.below.flatten.count k.closer

theorem closersAhead_eq (k : Delimiter) (c : Cursor) :
    c.closersAhead k = [c.octet].count (.first k.closer) +
      (c.rest.count (.first k.closer) + c.below.flatten.count k.closer) := by
  rw [closersAhead, ← List.singleton_append, List.count_append, Nat.add_assoc]

theorem firstFilled?_closersAhead {row : Nat} {ls : List (List Char)}
    (h : firstFilled? row ls = some d) :
    d.closersAhead k ≤ ls.flatten.count k.closer := by
  fun_induction firstFilled? row ls with
  | case1 => cases h
  | case2 row ls ih => exact ih h
  | case3 row ch cs ls _ ih =>
    rw [List.flatten_cons, List.count_append]
    exact Nat.le_trans (ih h) (Nat.le_add_left _ _)
  | case4 row ch cs ls _ =>
    cases h
    rw [List.flatten_cons, List.count_append, ← Text.count_octets _ (ch :: cs)]
    exact Nat.le_refl _

theorem nextLine?_closersAhead (h : c.nextLine? = some d) :
    d.closersAhead k + [c.octet].count (.first k.closer) ≤ c.closersAhead k := by
  have hle := @firstFilled?_closersAhead d k _ _ h
  rw [closersAhead_eq k c]
  omega

theorem advance?_closersAhead (h : c.advance? = some d) :
    d.closersAhead k + [c.octet].count (.first k.closer) ≤ c.closersAhead k := by
  unfold Cursor.advance? at h
  split at h
  · next o rest hr =>
    cases h
    rw [closersAhead_eq k c, hr, closersAhead, Nat.add_comm]
  · exact nextLine?_closersAhead h

theorem onward?_closersAhead (h : c.onward? = some d) :
    d.closersAhead k + [c.octet].count (.first k.closer) ≤ c.closersAhead k := by
  unfold Cursor.onward? at h
  split at h
  · obtain ⟨e, he, hd⟩ := Option.bind_eq_some_iff.1 h
    have hle := @advance?_closersAhead _ _ k he
    have hle' := @advance?_closersAhead _ _ k hd
    omega
  · split at h
    · exact nextLine?_closersAhead h
    · exact advance?_closersAhead h

/-- A group closes only if more closing delimiters follow than groups are open in
it. -/
theorem lt_closersAhead (h : matchClose? k n c = some d) : n < c.closersAhead k := by
  fun_induction Cursor.matchClose? k n c with
  | case1 n c hclose =>
    rw [hclose.2, closersAhead, hclose.1, List.count_cons_self]
    omega
  | case2 => cases h
  | case3 n c hclose e he ih =>
    have hlt := ih h
    have hle := @onward?_closersAhead _ _ k he
    rw [List.count_singleton] at hle
    unfold Delimiter.depthAfter at hlt
    split at hlt
    · next hcloser =>
      have hn : n ≠ 0 := fun hn => hclose ⟨hcloser, hn⟩
      rw [hcloser, if_pos (beq_self_eq_true _)] at hle
      omega
    · split at hlt <;> omega

theorem matchClose?_openers (k : Delimiter) (n m : Nat) (p : Position) (below : List (List Char)) :
    (before? p (List.replicate m k.opener) below).bind (matchClose? k n) =
      (firstFilled? (p.row + 1) below).bind (matchClose? k (n + m)) := by
  induction m generalizing n p with
  | zero => rfl
  | succ m ih =>
    have hopener : k.opener ≠ '\\' ∧ k.opener ≠ '%' ∧ k.opener ≠ k.closer := by
      cases k <;> decide
    have hdepth : k.depthAfter (.first k.opener) n = n + 1 := by
      simp [Delimiter.depthAfter, hopener.2.2]
    show matchClose? k n (before p k.opener (List.replicate m k.opener) below) = _
    rw [matchClose?_char hopener.1 hopener.2.1 (fun h => hopener.2.2 h.1), hdepth, ih,
      Nat.add_right_comm, Nat.add_assoc]

/-- Too many opening delimiters leave the group open. -/
theorem matchClose?_openers_eq_none {m : Nat} {below : List (List Char)}
    (h : below.flatten.count k.closer ≤ m) (n : Nat) (p : Position) :
    (before? p (List.replicate m k.opener) below).bind (matchClose? k n) = none := by
  rw [matchClose?_openers, Option.bind_eq_none_iff]
  intro d hd
  rw [Option.eq_none_iff_forall_not_mem]
  intro e he
  have hlt := lt_closersAhead he
  have hle := @firstFilled?_closersAhead d k _ _ hd
  omega

end Cursor
end Sectioning
