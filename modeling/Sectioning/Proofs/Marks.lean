/-
Which parts of a text are comments.

A mark says what a place on a line is: plain, escaped by the backslash before it,
or in a comment.  `Mark.after` reads marks off a text, and `Text.refill` replaces
what stands in its comments.  With nothing to put there, `Text.bare`, only the
percent signs remain of the comments.

Two buffers that differ in their comments alone have the same bare lines
(`Buffer.sameOutsideComments_iff`).  A place outside the comments of one is such a
place of the other, and the bare texts behind it are the same
(`Buffer.Alike.exists_splits`).
-/
import Sectioning.Heading.Entry
import Sectioning.Proofs.Places

namespace Sectioning

/-- What a place on a line is. -/
inductive Mark where
  | plain
  /-- Right after a backslash that escapes what stands here. -/
  | escaped
  /-- Behind a percent sign that is not escaped. -/
  | comment
  deriving DecidableEq

namespace Mark

/-- The mark after a character. -/
def next (m : Mark) (c : Char) : Mark :=
  if c = '\n' then plain
  else match m with
    | comment => comment
    | escaped => plain
    | plain => if c = '\\' then escaped else if c = '%' then comment else plain

/-- The mark after a text. -/
def after (m : Mark) (cs : List Char) : Mark :=
  cs.foldl next m

theorem next_newline (m : Mark) : m.next '\n' = plain := rfl

theorem next_comment {c : Char} (hc : c ≠ '\n') : comment.next c = comment := by
  rw [next, if_neg hc]

theorem next_escaped (c : Char) : escaped.next c = plain := by
  by_cases hc : c = '\n'
  · rw [next, if_pos hc]
  · rw [next, if_neg hc]

theorem next_of_ne {m : Mark} (hm : m ≠ comment) {c : Char} (hesc : c ≠ '\\') (hcom : c ≠ '%') :
    m.next c = plain := by
  cases m with
  | plain =>
    rw [next]
    simp only [if_neg hesc, if_neg hcom, ite_self]
  | escaped => exact next_escaped c
  | comment => exact absurd rfl hm

/-- A comment starts at a percent sign that is not escaped. -/
theorem next_eq_comment {m : Mark} (hm : m ≠ comment) {c : Char} (h : m.next c = comment) :
    m = plain ∧ c = '%' := by
  cases m with
  | plain =>
    refine ⟨rfl, Classical.byContradiction fun hcom => ?_⟩
    by_cases hesc : c = '\\'
    · rw [hesc] at h
      cases h
    · rw [next_of_ne hm hesc hcom] at h
      cases h
  | escaped =>
    rw [next_escaped] at h
    cases h
  | comment => exact absurd rfl hm

theorem next_eq_escaped {m : Mark} {c : Char} (h : m.next c = escaped) : m = plain ∧ c = '\\' := by
  by_cases hesc : c = '\\'
  · subst hesc
    cases m <;> first | exact ⟨rfl, rfl⟩ | cases h
  · exfalso
    by_cases hm : m = comment
    · subst hm
      by_cases hn : c = '\n'
      · rw [hn] at h
        cases h
      · rw [next_comment hn] at h
        cases h
    · by_cases hcom : c = '%'
      · subst hcom
        cases m <;> cases h
      · rw [next_of_ne hm hesc hcom] at h
        cases h

theorem after_cons (m : Mark) (c : Char) (cs : List Char) :
    m.after (c :: cs) = (m.next c).after cs :=
  rfl

theorem after_append (m : Mark) (us vs : List Char) :
    m.after (us ++ vs) = (m.after us).after vs := by
  rw [after, List.foldl_append]
  rfl

theorem after_ne_escaped (m : Mark) {us : List Char} (hne : us ≠ []) (hus : '\\' ∉ us) :
    m.after us ≠ escaped := by
  induction us using List.reverseRecOn with
  | nil => exact absurd rfl hne
  | append_singleton us c _ =>
    rw [after_append]
    intro h
    rw [(next_eq_escaped h).2] at hus
    exact hus (by simp)

theorem after_comment {us : List Char} (hus : '\n' ∉ us) : comment.after us = comment := by
  induction us with
  | nil => rfl
  | cons u us ih =>
    rw [List.mem_cons, not_or] at hus
    rw [after_cons, next_comment (Ne.symm hus.1), ih hus.2]

/-- Marks begin anew on each line. -/
theorem after_lastLine (us : List Char) : plain.after (Text.lastLine us) = plain.after us := by
  induction us using List.reverseRecOn with
  | nil => rfl
  | append_singleton us c ih =>
    by_cases hc : c = '\n'
    · subst hc
      rw [Text.lastLine_append_newline, after_append]
      rfl
    · rw [Text.lastLine_append_singleton us hc, after_append, after_append, ih]

end Mark

namespace Text

/-- Replaces the text of each comment by `w`.  The percent signs stay. -/
def refill (w : List Char) : Mark → List Char → List Char
  | m, [] => if m = .comment then w else []
  | m, c :: cs =>
    if m = .comment then
      if c = '\n' then w ++ '\n' :: refill w .plain cs else refill w .comment cs
    else c :: refill w (m.next c) cs

/-- The text without what stands in its comments. -/
def bare : Mark → List Char → List Char :=
  refill []

variable {w : List Char} {m : Mark}

theorem refill_nil (w : List Char) (hm : m ≠ .comment) : refill w m [] = [] := by
  rw [refill, if_neg hm]

theorem refill_cons (w : List Char) (hm : m ≠ .comment) (c : Char) (cs : List Char) :
    refill w m (c :: cs) = c :: refill w (m.next c) cs := by
  rw [refill, if_neg hm]

theorem refill_comment_cons (w : List Char) {c : Char} (hc : c ≠ '\n') (cs : List Char) :
    refill w .comment (c :: cs) = refill w .comment cs := by
  rw [refill, if_pos rfl, if_neg hc]

theorem refill_comment_newline (w cs : List Char) :
    refill w .comment ('\n' :: cs) = w ++ '\n' :: refill w .plain cs := by
  rw [refill, if_pos rfl, if_pos rfl]

theorem refill_comment (w : List Char) {us : List Char} (hus : '\n' ∉ us) :
    refill w .comment us = w := by
  induction us with
  | nil => rw [refill, if_pos rfl]
  | cons u us ih =>
    rw [List.mem_cons, not_or] at hus
    rw [refill_comment_cons w (Ne.symm hus.1), ih hus.2]

theorem refill_append (w : List Char) {us : List Char} (h : m.after us ≠ .comment)
    (vs : List Char) : refill w m (us ++ vs) = refill w m us ++ refill w (m.after us) vs := by
  induction us generalizing m with
  | nil =>
    have hm : m ≠ .comment := h
    rw [refill_nil w hm]
    rfl
  | cons u us ih =>
    rw [Mark.after_cons] at h ⊢
    rw [List.cons_append]
    by_cases hm : m = .comment
    · subst hm
      by_cases hu : u = '\n'
      · subst hu
        rw [Mark.next_newline] at h ⊢
        rw [refill_comment_newline, refill_comment_newline, ih h, List.append_assoc,
          List.cons_append]
      · rw [Mark.next_comment hu] at h ⊢
        rw [refill_comment_cons w hu, refill_comment_cons w hu, ih h]
    · rw [refill_cons w hm, refill_cons w hm, ih h, List.cons_append]

theorem refill_append_newline (w us vs : List Char) :
    refill w m (us ++ '\n' :: vs) = refill w m us ++ '\n' :: refill w .plain vs := by
  induction us generalizing m with
  | nil =>
    by_cases hm : m = .comment
    · subst hm
      rw [List.nil_append, refill_comment_newline, refill_comment w List.not_mem_nil]
    · rw [List.nil_append, refill_cons w hm, refill_nil w hm, Mark.next_newline, List.nil_append]
  | cons u us ih =>
    rw [List.cons_append]
    by_cases hm : m = .comment
    · subst hm
      by_cases hu : u = '\n'
      · subst hu
        rw [refill_comment_newline, refill_comment_newline, ih, List.append_assoc,
          List.cons_append]
      · rw [refill_comment_cons w hu, refill_comment_cons w hu, ih]
    · rw [refill_cons w hm, refill_cons w hm, ih, List.cons_append]

theorem refill_of_after_ne (w : List Char) {us : List Char} (hus : '\n' ∉ us)
    (h : m.after us ≠ .comment) : refill w m us = us := by
  induction us generalizing m with
  | nil => exact refill_nil w h
  | cons u us ih =>
    rw [List.mem_cons, not_or] at hus
    have hm : m ≠ .comment := by
      rintro rfl
      rw [Mark.after_cons, Mark.next_comment (Ne.symm hus.1), Mark.after_comment hus.2] at h
      exact h rfl
    rw [refill_cons w hm, ih hus.2 h]

theorem exists_comment {us : List Char} (h : m.after us = .comment) (hm : m ≠ .comment)
    (hus : '\n' ∉ us) : ∃ vs xs, us = vs ++ '%' :: xs ∧ m.after vs = .plain := by
  induction us generalizing m with
  | nil => exact absurd h hm
  | cons u us ih =>
    rw [List.mem_cons, not_or] at hus
    by_cases hnext : m.next u = .comment
    · obtain ⟨rfl, rfl⟩ := Mark.next_eq_comment hm hnext
      exact ⟨[], us, rfl, rfl⟩
    · obtain ⟨vs, xs, rfl, hvs⟩ := ih h hnext hus.2
      exact ⟨u :: vs, xs, rfl, hvs⟩

theorem refill_percent (w : List Char) {us vs : List Char} (hus : '\n' ∉ us) (hvs : '\n' ∉ vs)
    (h : m.after us = .plain) : refill w m (us ++ '%' :: vs) = us ++ '%' :: w := by
  have hne : m.after us ≠ .comment := by rw [h]; simp
  rw [refill_append w hne, refill_of_after_ne w hus hne, h, refill_cons w (by simp)]
  show us ++ '%' :: refill w .comment vs = _
  rw [refill_comment w hvs]

/-- A line either has a comment or is left as it is. -/
theorem bare_line {l : List Char} (hl : '\n' ∉ l) :
    (∀ w, refill w .plain l = l) ∨
      ∃ us vs, l = us ++ '%' :: vs ∧ Mark.plain.after us = .plain ∧
        ∀ w, refill w .plain l = us ++ '%' :: w := by
  by_cases h : Mark.plain.after l = .comment
  · obtain ⟨us, vs, rfl, hus⟩ := exists_comment h (by simp) hl
    rw [List.mem_append, List.mem_cons, not_or, not_or] at hl
    exact Or.inr ⟨us, vs, rfl, hus, fun w => refill_percent w hl.1 hl.2.2 hus⟩
  · exact Or.inl fun w => refill_of_after_ne w hl h

/-- What is visible of a text does not depend on what its comments are filled
with. -/
theorem refill_refill (w : List Char) {v : List Char} (hv : '\n' ∉ v) (cs : List Char) :
    refill w m (refill v m cs) = refill w m cs := by
  induction cs generalizing m with
  | nil =>
    by_cases hm : m = .comment
    · subst hm
      rw [refill_comment v List.not_mem_nil, refill_comment w hv,
        refill_comment w List.not_mem_nil]
    · rw [refill_nil v hm]
  | cons c cs ih =>
    by_cases hm : m = .comment
    · subst hm
      by_cases hc : c = '\n'
      · subst hc
        rw [refill_comment_newline, refill_append_newline, refill_comment w hv, ih,
          refill_comment_newline]
      · rw [refill_comment_cons v hc, ih, refill_comment_cons w hc]
    · rw [refill_cons v hm, refill_cons w hm, ih, refill_cons w hm]

theorem percent_mem_refill (w : List Char) (hm : m ≠ .comment) {us : List Char} :
    '%' ∈ refill w m us ↔ '%' ∈ us := by
  induction us generalizing m with
  | nil => rw [refill_nil w hm]
  | cons u us ih =>
    rw [refill_cons w hm, List.mem_cons, List.mem_cons]
    by_cases hu : '%' = u
    · exact iff_of_true (Or.inl hu) (Or.inl hu)
    · have hnext : m.next u ≠ .comment := fun h => hu (Mark.next_eq_comment hm h).2.symm
      rw [ih hnext]

/-- Text that is visible without comments stands in the text itself. -/
theorem exists_append_of_bare_eq {us cs xs : List Char} (hus : '\n' ∉ us)
    (hover : m.after us ≠ .comment) (h : bare m cs = us ++ xs) :
    ∃ vs, cs = us ++ vs ∧ bare (m.after us) vs = xs := by
  induction us generalizing m cs with
  | nil => exact ⟨cs, rfl, h⟩
  | cons u us ih =>
    rw [List.mem_cons, not_or] at hus
    have hm : m ≠ .comment := by
      rintro rfl
      rw [Mark.after_cons, Mark.next_comment (Ne.symm hus.1), Mark.after_comment hus.2] at hover
      exact hover rfl
    cases cs with
    | nil =>
      rw [bare, refill_nil [] hm] at h
      cases h
    | cons c cs =>
      rw [bare, refill_cons [] hm, List.cons_append, List.cons.injEq] at h
      obtain ⟨rfl, h⟩ := h
      obtain ⟨vs, rfl, hvs⟩ := ih hus.2 hover h
      exact ⟨vs, rfl, hvs⟩

/-! ## Lines -/

theorem notMem_refill {us : List Char} (hw : '\n' ∉ w) (hus : '\n' ∉ us) :
    '\n' ∉ refill w m us := by
  induction us generalizing m with
  | nil =>
    rw [refill]
    split
    · exact hw
    · exact List.not_mem_nil
  | cons u us ih =>
    rw [List.mem_cons, not_or] at hus
    by_cases hm : m = .comment
    · subst hm
      rw [refill_comment_cons w (Ne.symm hus.1)]
      exact ih hus.2
    · rw [refill_cons w hm, List.mem_cons, not_or]
      exact ⟨hus.1, ih hus.2⟩

/-- Refilling goes line by line. -/
theorem lines_refill (hw : '\n' ∉ w) {cs l : List Char} {ls : List (List Char)}
    (h : lines cs = l :: ls) :
    lines (refill w m cs) = refill w m l :: ls.map (refill w .plain) := by
  induction ls generalizing cs l m with
  | nil =>
    obtain ⟨hl, ⟨-, rfl⟩ | ⟨ds, -, hds⟩⟩ := lines_eq_cons h
    · exact lines_of_notMem (notMem_refill hw hl)
    · exact absurd hds (split_ne_nil _ _)
  | cons l' ls ih =>
    obtain ⟨hl, ⟨hnil, -⟩ | ⟨ds, rfl, hds⟩⟩ := lines_eq_cons h
    · cases hnil
    · rw [refill_append_newline, lines_append_newline (notMem_refill hw hl), ih hds, List.map_cons]

/-! ## Texts that differ in comments -/

/-- The number of backslashes at the end of a text. -/
def backslashes (us : List Char) : Nat :=
  (us.reverse.takeWhile (· == '\\')).length

/-- A percent sign after `us` is the first one of its line that is not escaped. -/
def EndsAtComment (us : List Char) : Prop :=
  backslashes us % 2 = 0 ∧ ∀ vs xs, us = vs ++ '%' :: xs → backslashes vs % 2 = 1

/-- Two lines are equal, or both have a comment and agree up to its percent
sign. -/
def SameOutsideComment (l l' : List Char) : Prop :=
  l = l' ∨ ∃ us vs vs', EndsAtComment us ∧ l = us ++ '%' :: vs ∧ l' = us ++ '%' :: vs'

theorem backslashes_append_backslash (us : List Char) :
    backslashes (us ++ ['\\']) = backslashes us + 1 := by
  simp [backslashes]

theorem backslashes_append_of_ne (us : List Char) {c : Char} (hc : c ≠ '\\') :
    backslashes (us ++ [c]) = 0 := by
  simp [backslashes, hc]

/-- Outside comments a place is escaped when an odd number of backslashes stands
before it. -/
theorem after_eq_escaped_iff {us : List Char} (h : Mark.plain.after us ≠ .comment) :
    Mark.plain.after us = .escaped ↔ backslashes us % 2 = 1 := by
  induction us using List.reverseRecOn with
  | nil => simp [Mark.after, backslashes]
  | append_singleton us c ih =>
    rw [Mark.after_append] at h ⊢
    change (Mark.plain.after us).next c ≠ .comment at h
    show (Mark.plain.after us).next c = .escaped ↔ _
    by_cases hc : c = '\\'
    · subst hc
      rw [backslashes_append_backslash]
      cases hm : Mark.plain.after us with
      | plain =>
        have heven := (not_congr (ih (by rw [hm]; simp))).1 (by rw [hm]; simp)
        exact iff_of_true rfl (by omega)
      | escaped =>
        have hodd := (ih (by rw [hm]; simp)).1 hm
        exact iff_of_false (by rw [Mark.next_escaped]; simp) (by omega)
      | comment =>
        rw [hm] at h
        exact absurd rfl h
    · rw [backslashes_append_of_ne us hc]
      exact iff_of_false (fun h => hc (Mark.next_eq_escaped h).2) (by simp)

theorem after_eq_comment_iff {us : List Char} (hus : '\n' ∉ us) :
    Mark.plain.after us = .comment ↔ ∃ vs xs, us = vs ++ '%' :: xs ∧ backslashes vs % 2 = 0 := by
  constructor
  · intro h
    obtain ⟨vs, xs, rfl, hvs⟩ := exists_comment h (by simp) hus
    have heven := not_congr (after_eq_escaped_iff (by rw [hvs]; simp)) |>.1 (by rw [hvs]; simp)
    exact ⟨vs, xs, rfl, by omega⟩
  · rintro ⟨vs, xs, rfl, heven⟩
    rw [List.mem_append, List.mem_cons, not_or, not_or] at hus
    rw [Mark.after_append, Mark.after_cons]
    cases hvs : Mark.plain.after vs with
    | plain => exact Mark.after_comment hus.2.2
    | escaped =>
      have hodd := (after_eq_escaped_iff (by rw [hvs]; simp)).1 hvs
      omega
    | comment =>
      rw [Mark.next_comment (by decide)]
      exact Mark.after_comment hus.2.2

theorem endsAtComment_iff {us : List Char} (hus : '\n' ∉ us) :
    EndsAtComment us ↔ Mark.plain.after us = .plain := by
  constructor
  · rintro ⟨heven, hfirst⟩
    have hne : Mark.plain.after us ≠ .comment := by
      rw [Ne, after_eq_comment_iff hus]
      rintro ⟨vs, xs, hvs, h⟩
      have hodd := hfirst vs xs hvs
      omega
    cases hm : Mark.plain.after us with
    | plain => rfl
    | escaped =>
      have hodd := (after_eq_escaped_iff hne).1 hm
      omega
    | comment => exact absurd hm hne
  · intro h
    have hne : Mark.plain.after us ≠ .comment := by rw [h]; simp
    have heven := not_congr (after_eq_escaped_iff hne) |>.1 (by rw [h]; simp)
    refine ⟨by omega, fun vs xs hvs => ?_⟩
    by_contra hodd
    exact hne ((after_eq_comment_iff hus).2 ⟨vs, xs, hvs, by omega⟩)

theorem sameOutsideComment_iff {l l' : List Char} (hl : '\n' ∉ l) (hl' : '\n' ∉ l') :
    SameOutsideComment l l' ↔ bare .plain l = bare .plain l' := by
  constructor
  · rintro (rfl | ⟨us, vs, vs', hus, rfl, rfl⟩)
    · rfl
    · rw [List.mem_append, List.mem_cons, not_or, not_or] at hl hl'
      rw [endsAtComment_iff hl.1] at hus
      rw [bare, refill_percent _ hl.1 hl.2.2 hus, refill_percent _ hl.1 hl'.2.2 hus]
  · intro h
    rw [bare] at h
    rcases bare_line hl with hw | ⟨us, vs, rfl, hus, hw⟩
    · rcases bare_line hl' with hw' | ⟨us', vs', rfl, hus', hw'⟩
      · rw [hw, hw'] at h
        exact Or.inl h
      · rw [hw, hw'] at h
        rw [List.mem_append, not_or] at hl'
        exact Or.inr ⟨us', [], vs', (endsAtComment_iff hl'.1).2 hus', h, rfl⟩
    · rw [List.mem_append, not_or] at hl
      have hends := (endsAtComment_iff hl.1).2 hus
      rcases bare_line hl' with hw' | ⟨us', vs', rfl, hus', hw'⟩
      · rw [hw, hw'] at h
        exact Or.inr ⟨us, vs, [], hends, rfl, h.symm⟩
      · rw [hw, hw'] at h
        have hsame : us = us' := List.append_cancel_right h
        exact Or.inr ⟨us, vs, vs', hends, rfl, by rw [hsame]⟩

/-! ## Genuine places -/

theorem isGenuine_of_ne {o : Octet} (ho : o ≠ .first '\\') (os : List Octet) (n : Nat) :
    isGenuine (o :: os) (n + 1) = if o = .first '%' then false else isGenuine os n :=
  isGenuine.eq_6 o os n (fun h => absurd h ho) (fun _ h => absurd h ho) (fun _ _ _ h => absurd h ho)

theorem isGenuine_laterOctets (c : Char) (os : List Octet) (n : Nat) :
    isGenuine (laterOctets c ++ os) (c.utf8Size - 1 + n) = isGenuine os n := by
  rw [laterOctets]
  induction c.utf8Size - 1 with
  | zero => rw [List.replicate_zero, List.nil_append, Nat.zero_add]
  | succ j ih =>
    rw [List.replicate_succ, List.cons_append, Nat.succ_add, isGenuine_of_ne (by simp),
      if_neg (by simp), ih]

/-- A place between characters is genuine when its mark is plain. -/
theorem isGenuine_octets {us : List Char} (hus : '\n' ∉ us) (vs : List Char) :
    isGenuine (octets (us ++ vs)) (byteLength us) = true ↔ Mark.plain.after us = .plain := by
  -- a backslash goes together with the character after it
  induction hn : us.length using Nat.strongRecOn generalizing us with
  | ind n ih =>
    cases us with
    | nil => simp [byteLength, isGenuine, Mark.after]
    | cons c us =>
      rw [List.mem_cons, not_or] at hus
      have hpos := c.utf8Size_pos
      have hlen : byteLength (c :: us) = c.utf8Size - 1 + byteLength us + 1 := by
        rw [byteLength_cons]
        omega
      by_cases hesc : c = '\\'
      · subst hesc
        cases us with
        | nil =>
          refine iff_of_false ?_ (by decide)
          show ¬ isGenuine (.first '\\' :: octets vs) 1 = true
          rw [isGenuine]
          simp
        | cons d us =>
          rw [List.mem_cons, not_or] at hus
          have hposd := d.utf8Size_pos
          have hlend : byteLength ('\\' :: d :: us) = d.utf8Size - 1 + byteLength us + 2 := by
            rw [byteLength_cons, byteLength_cons, show Char.utf8Size '\\' = 1 from rfl]
            omega
          rw [hlend]
          show isGenuine (.first '\\' :: .first d :: (laterOctets d ++ octets (us ++ vs))) _ = true ↔
            (Mark.escaped.next d).after us = .plain
          rw [isGenuine, isGenuine_laterOctets, Mark.next_escaped]
          refine ih us.length ?_ hus.2.2 rfl
          rw [← hn, List.length_cons, List.length_cons]
          omega
      · rw [hlen]
        show isGenuine (.first c :: (laterOctets c ++ octets (us ++ vs))) _ = true ↔ _
        rw [isGenuine_of_ne (by simpa using hesc), Mark.after_cons]
        by_cases hcom : c = '%'
        · subst hcom
          rw [if_pos rfl]
          show false = true ↔ Mark.comment.after us = .plain
          rw [Mark.after_comment hus.2]
          simp
        · rw [if_neg (by simpa using hcom), isGenuine_laterOctets,
            Mark.next_of_ne (by simp) hesc hcom]
          exact ih us.length (by rw [← hn]; simp) hus.2 rfl

end Text

namespace Position

/-- A place outside comments stays where it is when the comments before it are
replaced. -/
theorem afterAll_refill {w us : List Char} {m : Mark} (hw : '\n' ∉ w)
    (hover : m.after us ≠ .comment) {p q : Position} (hrow : q.row = p.row)
    (hplace : m ≠ .comment → q = p) :
    q.afterAll (Text.refill w m us) = p.afterAll us := by
  induction us generalizing m p q with
  | nil =>
    have hm : m ≠ .comment := hover
    rw [Text.refill_nil w hm]
    exact hplace hm
  | cons u us ih =>
    rw [Mark.after_cons] at hover
    rw [afterAll_cons]
    by_cases hm : m = .comment
    · subst hm
      by_cases hu : u = '\n'
      · subst hu
        have hnext : (q.afterAll w).after '\n' = p.after '\n' := by
          rw [after_newline, after_newline, afterAll_of_notMem hw, hrow]
        rw [Text.refill_comment_newline, afterAll_append, afterAll_cons, hnext]
        exact ih hover rfl fun _ => rfl
      · rw [Text.refill_comment_cons w hu]
        rw [Mark.next_comment hu] at hover
        refine ih hover ?_ fun h => absurd rfl h
        rw [after_of_ne p hu, hrow]
    · rw [Text.refill_cons w hm, afterAll_cons, hplace hm]
      exact ih hover rfl fun _ => rfl

end Position

namespace Buffer

/-- Two buffers have as many lines, and the lines differ in their comments
alone. -/
def SameOutsideComments (b b' : Buffer) : Prop :=
  List.Forall₂ Text.SameOutsideComment b.lines b'.lines

/-- Two buffers look the same without their comments. -/
def Alike (b b' : Buffer) : Prop :=
  b.lines.map (Text.bare .plain) = b'.lines.map (Text.bare .plain)

theorem sameOutsideComments_iff {b b' : Buffer} : b.SameOutsideComments b' ↔ b.Alike b' := by
  have hlines : ∀ ls ls' : List (List Char), (∀ l ∈ ls, '\n' ∉ l) → (∀ l ∈ ls', '\n' ∉ l) →
      (List.Forall₂ Text.SameOutsideComment ls ls' ↔
        ls.map (Text.bare .plain) = ls'.map (Text.bare .plain)) := by
    intro ls
    induction ls with
    | nil =>
      intro ls' _ _
      cases ls' with
      | nil => simp
      | cons l' ls' => exact iff_of_false (fun h => nomatch h) (by simp)
    | cons l ls ih =>
      intro ls' hls hls'
      cases ls' with
      | nil => exact iff_of_false (fun h => nomatch h) (by simp)
      | cons l' ls' =>
        rw [List.forall_mem_cons] at hls hls'
        rw [List.forall₂_cons, List.map_cons, List.map_cons, List.cons.injEq,
          Text.sameOutsideComment_iff hls.1 hls'.1, ih ls' hls.2 hls'.2]
  refine hlines b.lines b'.lines ?_ ?_
  · rw [b.lines_eq]
    exact fun l => Text.notMem_of_mem_lines
  · rw [b'.lines_eq]
    exact fun l => Text.notMem_of_mem_lines

/-- Whether a place is neither escaped nor in a comment. -/
def isGenuine (b : Buffer) (p : Position) : Bool :=
  (b.line? p.row).any fun l => Text.isGenuine (Text.octets l) p.column

theorem Splits.isGenuine_iff {b : Buffer} {p : Position} {us vs : List Char}
    (h : b.Splits p us vs) : b.isGenuine p = true ↔ Mark.plain.after us = .plain := by
  obtain ⟨l, ls, hl⟩ := Text.exists_lines_eq_cons vs
  rw [isGenuine, h.line? hl, Option.any_some, h.column_eq,
    Text.isGenuine_octets (Text.notMem_lastLine us), Mark.after_lastLine]

/-- The buffer with the text of each comment replaced. -/
def refill (b : Buffer) (w : List Char) : Buffer :=
  .holding b.id (Text.refill w .plain b.text)

theorem lines_refill (b : Buffer) {w : List Char} (hw : '\n' ∉ w) :
    (b.refill w).lines = b.lines.map (Text.refill w .plain) := by
  obtain ⟨l, ls, hl⟩ := Text.exists_lines_eq_cons b.text
  show Text.lines (Text.refill w .plain b.text) = _
  rw [Text.lines_refill hw hl, b.lines_eq, hl, List.map_cons]

theorem alike_refill (b : Buffer) {w : List Char} (hw : '\n' ∉ w) : b.Alike (b.refill w) := by
  rw [Alike, b.lines_refill hw, List.map_map]
  refine List.map_congr_left fun l _ => ?_
  exact (Text.refill_refill [] hw l).symm

namespace Alike

variable {b b' : Buffer}

theorem symm (h : b.Alike b') : b'.Alike b :=
  Eq.symm h

theorem exists_line (h : b.Alike b') {r : Nat} {l : List Char} {ls : List (List Char)}
    (hl : b.lines.drop r = l :: ls) :
    ∃ l' ls', b'.lines.drop r = l' :: ls' ∧ Text.bare .plain l' = Text.bare .plain l ∧
      ls'.map (Text.bare .plain) = ls.map (Text.bare .plain) := by
  have hdrop := congrArg (List.drop r) h
  rw [← List.map_drop, ← List.map_drop, hl, List.map_cons] at hdrop
  cases hl' : b'.lines.drop r with
  | nil =>
    rw [hl'] at hdrop
    cases hdrop
  | cons l' ls' =>
    rw [hl', List.map_cons, List.cons.injEq] at hdrop
    exact ⟨l', ls', rfl, hdrop.1.symm, hdrop.2.symm⟩

/-- A place outside the comments of one buffer is one of the other, and the two
texts behind it look the same without comments. -/
theorem exists_splits (h : b.Alike b') {p : Position} {us vs : List Char} (hs : b.Splits p us vs)
    (hover : Mark.plain.after us ≠ .comment) :
    ∃ us' vs', b'.Splits p us' vs' ∧ Mark.plain.after us' = Mark.plain.after us ∧
      Text.bare (Mark.plain.after us) vs' = Text.bare (Mark.plain.after us) vs := by
  obtain ⟨l, ls, hl⟩ := Text.exists_lines_eq_cons vs
  obtain ⟨l₁, ls', hl₁, hbare, hbelow⟩ := h.exists_line (hs.drop_lines hl)
  have hbreak := Text.notMem_lastLine us
  rw [← Mark.after_lastLine] at hover ⊢
  rw [Text.bare, Text.refill_append [] hover, Text.refill_of_after_ne [] hbreak hover] at hbare
  obtain ⟨l', rfl, hl'⟩ := Text.exists_append_of_bare_eq hbreak hover hbare
  have hline : (Text.lines b'.text)[p.row]? = some (Text.lastLine us ++ l') := by
    rw [← b'.lines_eq, ← Nat.add_zero p.row, ← List.getElem?_drop, hl₁]
    rfl
  obtain ⟨us', vs', htext, hplace, hvs'⟩ := exists_split_lines p.row hline
  have hs' : b'.Splits p us' vs' := ⟨htext, by rw [hplace, ← hs.column_eq]⟩
  have hrows := hs'.drop_lines hvs'
  rw [hl₁, List.cons.injEq] at hrows
  have hlast : Text.lastLine us' = Text.lastLine us := (List.append_cancel_right hrows.1).symm
  refine ⟨us', vs', hs', by rw [← Mark.after_lastLine, hlast], Text.lines_injective ?_⟩
  rw [Text.bare, Text.lines_refill List.not_mem_nil hl, Text.lines_refill List.not_mem_nil hvs',
    ← hrows.2]
  exact congrArg₂ List.cons hl' hbelow

theorem isGenuine (h : b.Alike b') {p : Position} {us vs : List Char} (hs : b.Splits p us vs)
    (hgenuine : b.isGenuine p = true) : b'.isGenuine p = true := by
  have hplain := hs.isGenuine_iff.1 hgenuine
  obtain ⟨us', vs', hs', hover, -⟩ := h.exists_splits hs (by rw [hplain]; simp)
  exact hs'.isGenuine_iff.2 (by rw [hover, hplain])

end Alike

theorem Splits.refill {b : Buffer} {p : Position} {us vs w : List Char} (h : b.Splits p us vs)
    (hw : '\n' ∉ w) (hover : Mark.plain.after us ≠ .comment) :
    (b.refill w).Splits p (Text.refill w .plain us) (Text.refill w (Mark.plain.after us) vs) := by
  refine ⟨?_, ?_⟩
  · show Text.refill w .plain b.text = _
    rw [h.text_eq, Text.refill_append w hover]
  · rw [h.place_eq]
    exact (Position.afterAll_refill hw hover rfl fun _ => rfl).symm

end Buffer
end Sectioning
