/-
Two readers on texts that differ in comments alone.

`Cursor.Tracks b b' c c'` says that the reader `c` on `b` and the reader `c'` on
`b'` stand on the same place outside comments.  Then they see the same octet, and
a step takes both to such a place again or both to the end.  The one exception is
a step from the percent sign of a comment into it.  A reader inside a group makes
such a step only when a backslash takes the percent sign along: it strays.

So two readers find the same argument unless one of them strays, and the title
that they cut out is the same because comments are taken out of it
(`Cursor.Tracks.bracedRange?`, `Occurrence.reading_eq_of_tracks`).
-/
import Sectioning.Proofs.LooseForms
import Sectioning.Proofs.Titles

namespace Sectioning

namespace Text

/-- A line begins with what is visible of it. -/
theorem exists_bare_append {l : List Char} (hl : '\n' ∉ l) :
    ∃ v, l = bare .plain l ++ v ∧
      (v = [] ∨ ∃ us, bare .plain l = us ++ ['%'] ∧ Mark.plain.after us = .plain) := by
  rcases bare_line hl with hw | ⟨us, vs, rfl, hus, hw⟩
  · refine ⟨[], ?_, Or.inl rfl⟩
    rw [bare, hw, List.append_nil]
  · refine ⟨vs, ?_, Or.inr ⟨us, hw [], hus⟩⟩
    rw [bare, hw]
    simp

/-- An octet outside the comment of a line and what is visible after it.  The line
goes on behind that only if it has a comment. -/
theorem exists_visible {l : List Char} {n : Nat} {o : Octet} {rest : List Octet} (hl : '\n' ∉ l)
    (ho : (octets l).drop n = o :: rest) (hlt : n < byteLength (bare .plain l)) :
    ∃ os v, (octets (bare .plain l)).drop n = o :: os ∧ rest = os ++ octets v ∧
      (v = [] ∨ ∃ us, bare .plain l = us ++ ['%'] ∧ Mark.plain.after us = .plain) := by
  obtain ⟨v, hv, hcomment⟩ := exists_bare_append hl
  have hlen : n < (octets (bare .plain l)).length := by rwa [length_octets]
  rw [hv, octets_append, List.drop_append_of_le_length (Nat.le_of_lt hlen)] at ho
  cases hdrop : (octets (bare .plain l)).drop n with
  | nil =>
    rw [List.drop_eq_nil_iff] at hdrop
    omega
  | cons o' os =>
    rw [hdrop, List.cons_append, List.cons.injEq] at ho
    exact ⟨os, v, by rw [ho.1], ho.2.symm, hcomment⟩

theorem isAllBlank_bare {l : List Char} (hl : '\n' ∉ l) :
    isAllBlank (bare .plain l) = isAllBlank l := by
  rcases bare_line hl with hw | ⟨us, vs, rfl, -, hw⟩
  · rw [bare, hw]
  · have hpercent : ∀ xs, isAllBlank (us ++ '%' :: xs) = false := by
      intro xs
      rw [isAllBlank, List.all_append, List.all_cons, show isBlank '%' = false from rfl,
        Bool.false_and, Bool.and_false]
    rw [bare, hw, hpercent, hpercent]

end Text

namespace Buffer

/-- The place is on a line and outside its comment.  The percent sign of the
comment counts as outside. -/
def Shows (b : Buffer) (p : Position) : Prop :=
  ∃ l, b.line? p.row = some l ∧ p.column < Text.byteLength (Text.bare .plain l)

theorem notMem_of_drop_lines {b : Buffer} {r : Nat} {l : List Char} {ls : List (List Char)}
    (h : b.lines.drop r = l :: ls) : '\n' ∉ l ∧ ∀ l' ∈ ls, '\n' ∉ l' := by
  have hmem : ∀ x ∈ l :: ls, '\n' ∉ x := by
    intro x hx
    rw [← h] at hx
    have hlines := List.mem_of_mem_drop hx
    rw [b.lines_eq] at hlines
    exact Text.notMem_of_mem_lines hlines
  rw [List.forall_mem_cons] at hmem
  exact hmem

theorem Splits.shows {b : Buffer} {p : Position} {c : Char} {us vs : List Char}
    (h : b.Splits p us (c :: vs)) (hc : c ≠ '\n') (hover : Mark.plain.after us ≠ .comment) :
    b.Shows p := by
  obtain ⟨l, ls, hl⟩ := Text.exists_lines_eq_cons vs
  refine ⟨_, h.line? (Text.lines_cons hc hl), ?_⟩
  rw [← Mark.after_lastLine] at hover
  rw [h.column_eq, Text.bare, Text.refill_append [] hover,
    Text.refill_of_after_ne [] (Text.notMem_lastLine us) hover, Text.refill_cons [] hover,
    Text.byteLength_append, Text.byteLength_cons]
  have hpos := c.utf8Size_pos
  omega

theorem Splits.after_of_shows {b : Buffer} {p : Position} {us vs : List Char}
    (h : b.Splits p us vs) (hshows : b.Shows p) : Mark.plain.after us ≠ .comment := by
  obtain ⟨l, ls, hl⟩ := Text.exists_lines_eq_cons vs
  obtain ⟨l', hl', hlt⟩ := hshows
  rw [h.line? hl, Option.some.injEq] at hl'
  subst hl'
  intro hover
  rw [← Mark.after_lastLine] at hover
  obtain ⟨hl₁, -⟩ := notMem_of_drop_lines (h.drop_lines hl)
  obtain ⟨ws, xs, hws, hplain⟩ := Text.exists_comment hover (by simp) (Text.notMem_lastLine us)
  rw [List.mem_append, not_or] at hl₁
  have hbreak : '\n' ∉ ws ∧ '\n' ∉ xs := by
    have hlast := hl₁.1
    rw [hws, List.mem_append, List.mem_cons, not_or, not_or] at hlast
    exact ⟨hlast.1, hlast.2.2⟩
  have hxs : '\n' ∉ xs ++ l := by
    rw [List.mem_append, not_or]
    exact ⟨hbreak.2, hl₁.2⟩
  rw [h.column_eq, hws, List.append_assoc, List.cons_append, Text.bare,
    Text.refill_percent [] hbreak.1 hxs hplain, Text.byteLength_append, Text.byteLength_append,
    Text.byteLength_cons, Text.byteLength_cons, Text.byteLength] at hlt
  omega

end Buffer

namespace Cursor

theorem rel_bind {α β γ δ : Type} {R : α → β → Prop} {S : γ → δ → Prop} {x : Option α}
    {y : Option β} {f : α → Option γ} {g : β → Option δ} (h : Option.Rel R x y)
    (hfg : ∀ a b, x = some a → y = some b → R a b → Option.Rel S (f a) (g b)) :
    Option.Rel S (x.bind f) (y.bind g) := by
  cases h with
  | some hab => exact hfg _ _ rfl rfl hab
  | none => exact Option.Rel.none

theorem exists_of_rel_some {α β : Type} {R : α → β → Prop} {a : α} {y : Option β}
    (h : Option.Rel R (some a) y) : ∃ b, y = some b ∧ R a b := by
  cases h with
  | some hab => exact ⟨_, rfl, hab⟩

/-- Two readers on the same place outside comments. -/
structure Tracks (b b' : Buffer) (c c' : Cursor) : Prop where
  on : c.On b
  on' : c'.On b'
  position_eq : c'.position = c.position
  shows : b.Shows c.position

section

variable {b b' : Buffer} {c c' : Cursor}

/-! ## Steps -/

theorem firstFilled?_position_eq {ls ls' : List (List Char)} (row : Nat)
    (h : ls.map (Text.bare .plain) = ls'.map (Text.bare .plain)) (hls : ∀ l ∈ ls, '\n' ∉ l)
    (hls' : ∀ l ∈ ls', '\n' ∉ l) :
    (firstFilled? row ls).map position = (firstFilled? row ls').map position := by
  induction ls generalizing ls' row with
  | nil =>
    cases ls' with
    | nil => rfl
    | cons l' ls' => cases h
  | cons l ls ih =>
    cases ls' with
    | nil => cases h
    | cons l' ls' =>
      rw [List.map_cons, List.map_cons, List.cons.injEq] at h
      rw [List.forall_mem_cons] at hls hls'
      have hblank : Text.isAllBlank l = Text.isAllBlank l' := by
        rw [← Text.isAllBlank_bare hls.1, h.1, Text.isAllBlank_bare hls'.1]
      have hrest := ih (row + 1) h.2 hls.2 hls'.2
      cases l with
      | nil =>
        cases l' with
        | nil => exact hrest
        | cons d ds =>
          rw [firstFilled?, firstFilled?, if_pos (by rw [← hblank]; rfl)]
          exact hrest
      | cons e es =>
        cases l' with
        | nil =>
          rw [firstFilled?, firstFilled?, if_pos (by rw [hblank]; rfl)]
          exact hrest
        | cons d ds =>
          rw [firstFilled?, firstFilled?, hblank]
          by_cases hall : Text.isAllBlank (d :: ds) = true
          · rw [if_pos hall, if_pos hall]
            exact hrest
          · rw [if_neg hall, if_neg hall]
            rfl

theorem Tracks.exists_lines (h : b.Alike b') (t : Tracks b b' c c') :
    ∃ l l', b.lines.drop c.position.row = l :: c.below ∧
      b'.lines.drop c.position.row = l' :: c'.below ∧
      Text.bare .plain l' = Text.bare .plain l ∧
      c'.below.map (Text.bare .plain) = c.below.map (Text.bare .plain) ∧
      (Text.octets l).drop c.position.column = c.octet :: c.rest ∧
      (Text.octets l').drop c.position.column = c'.octet :: c'.rest ∧
      c.position.column < Text.byteLength (Text.bare .plain l) := by
  obtain ⟨l, hl, ho⟩ := t.on
  obtain ⟨l', hl', ho'⟩ := t.on'
  rw [t.position_eq] at hl' ho'
  obtain ⟨l₁, ls₁, hl₁, hbare, hbelow⟩ := h.exists_line hl
  rw [hl', List.cons.injEq] at hl₁
  obtain ⟨rfl, rfl⟩ := hl₁
  obtain ⟨l₂, hl₂, hlt⟩ := t.shows
  rw [Buffer.line?_of_drop_lines hl, Option.some.injEq] at hl₂
  subst hl₂
  exact ⟨l, l', hl, hl', hbare, hbelow, ho, ho', hlt⟩

theorem Tracks.octet_eq (h : b.Alike b') (t : Tracks b b' c c') : c'.octet = c.octet := by
  obtain ⟨l, l', hl, hl', hbare, -, ho, ho', hlt⟩ := t.exists_lines h
  obtain ⟨os, v, hos, -⟩ := Text.exists_visible (Buffer.notMem_of_drop_lines hl).1 ho hlt
  rw [← hbare] at hlt
  obtain ⟨os', v', hos', -⟩ := Text.exists_visible (Buffer.notMem_of_drop_lines hl').1 ho' hlt
  rw [hbare, hos, List.cons.injEq] at hos'
  exact hos'.1.symm

theorem Tracks.symm (h : b.Alike b') (t : Tracks b b' c c') : Tracks b' b c' c := by
  obtain ⟨l, l', -, hl', hbare, -, -, -, hlt⟩ := t.exists_lines h
  refine ⟨t.on', t.on, t.position_eq.symm, ?_⟩
  rw [t.position_eq]
  exact ⟨l', Buffer.line?_of_drop_lines hl', by rwa [hbare]⟩

theorem Tracks.nextLine? (h : b.Alike b') (t : Tracks b b' c c') :
    Option.Rel (Tracks b b') c.nextLine? c'.nextLine? := by
  obtain ⟨l, l', hl, hl', -, hbelow, -⟩ := t.exists_lines h
  have hplace : c.nextLine?.map position = c'.nextLine?.map position := by
    rw [Cursor.nextLine?, Cursor.nextLine?, t.position_eq]
    exact firstFilled?_position_eq _ hbelow.symm (Buffer.notMem_of_drop_lines hl).2
      (Buffer.notMem_of_drop_lines hl').2
  cases hd : c.nextLine? with
  | none =>
    rw [hd, Option.map_none, eq_comm, Option.map_eq_none_iff] at hplace
    rw [hplace]
    exact Option.Rel.none
  | some d =>
    rw [hd, Option.map_some, eq_comm, Option.map_eq_some_iff] at hplace
    obtain ⟨d', hd', hposition⟩ := hplace
    rw [hd']
    obtain ⟨hon, hcol, -, ch, hch⟩ := t.on.nextLine? hd
    refine Option.Rel.some ⟨hon, (t.on'.nextLine? hd').1, hposition, ?_⟩
    -- the first character of the line is visible
    obtain ⟨m, hm, ho⟩ := hon
    rw [hcol, List.drop_zero, hch] at ho
    cases m with
    | nil => cases ho
    | cons e es =>
      refine ⟨_, Buffer.line?_of_drop_lines hm, ?_⟩
      have hpos := e.utf8Size_pos
      rw [hcol, Text.bare, Text.refill_cons [] (by simp), Text.byteLength_cons]
      omega

/-- If a line has a comment, its last visible octet is the genuine percent sign. -/
theorem isGenuine_of_last_visible {l us : List Char} {ls : List (List Char)}
    (hl : b.lines.drop c.position.row = l :: ls)
    (hos : (Text.octets (Text.bare .plain l)).drop c.position.column = [c.octet])
    (hus : Text.bare .plain l = us ++ ['%']) (hover : Mark.plain.after us = .plain) :
    c.octet = .first '%' ∧ b.isGenuine c.position = true := by
  have hcol : c.position.column = Text.byteLength us := by
    have hlen := congrArg List.length hos
    rw [List.length_drop, Text.length_octets, hus, Text.byteLength_append,
      show Text.byteLength ['%'] = 1 from rfl, List.length_singleton] at hlen
    omega
  refine ⟨?_, ?_⟩
  · rw [hus, hcol, Text.drop_octets] at hos
    exact (List.cons.inj hos).1.symm
  · obtain ⟨hbreak, -⟩ := Buffer.notMem_of_drop_lines hl
    obtain ⟨v, hv, -⟩ := Text.exists_bare_append hbreak
    rw [hus, List.append_assoc] at hv
    rw [hv, List.mem_append, not_or] at hbreak
    rw [Buffer.isGenuine, Buffer.line?_of_drop_lines hl, Option.any_some, hcol, hv]
    exact (Text.isGenuine_octets hbreak.1 _).2 hover

/-- Both readers make the same step, unless it leads into a comment. -/
theorem Tracks.advance? (h : b.Alike b') (t : Tracks b b' c c')
    (hcomment : ¬ (c.octet = .first '%' ∧ b.isGenuine c.position = true)) :
    Option.Rel (Tracks b b') c.advance? c'.advance? := by
  obtain ⟨l, l', hl, hl', hbare, -, ho, ho', hlt⟩ := t.exists_lines h
  obtain ⟨os, v, hos, hrest, hv⟩ :=
    Text.exists_visible (Buffer.notMem_of_drop_lines hl).1 ho hlt
  have hlt' := hlt
  rw [← hbare] at hlt'
  obtain ⟨os', v', hos', hrest', hv'⟩ :=
    Text.exists_visible (Buffer.notMem_of_drop_lines hl').1 ho' hlt'
  rw [hbare, hos, List.cons.injEq] at hos'
  obtain ⟨-, rfl⟩ := hos'
  cases os with
  | cons o os =>
    have hd : c.advance? = some ⟨⟨c.position.row, c.position.column + 1⟩, o,
        os ++ Text.octets v, c.below⟩ := by
      rw [Cursor.advance?, hrest]
      rfl
    have hd' : c'.advance? = some ⟨⟨c.position.row, c.position.column + 1⟩, o,
        os ++ Text.octets v', c'.below⟩ := by
      rw [Cursor.advance?, hrest', t.position_eq]
      rfl
    rw [hd, hd']
    refine Option.Rel.some ⟨(t.on.advance? hd).1, (t.on'.advance? hd').1, rfl,
      l, Buffer.line?_of_drop_lines hl, ?_⟩
    have hlen := congrArg List.length hos
    rw [List.length_drop, Text.length_octets, List.length_cons, List.length_cons] at hlen
    show c.position.column + 1 < _
    omega
  | nil =>
    -- behind the last visible octet the line ends, or the octet starts a comment
    have hlast : ∀ us, Text.bare .plain l = us ++ ['%'] → Mark.plain.after us ≠ .plain := by
      intro us hus hover
      refine hcomment (isGenuine_of_last_visible hl hos hus hover)
    have hnil : v = [] := by
      rcases hv with hv | ⟨us, hus, hover⟩
      · exact hv
      · exact absurd hover (hlast us hus)
    have hnil' : v' = [] := by
      rcases hv' with hv' | ⟨us, hus, hover⟩
      · exact hv'
      · rw [hbare] at hus
        exact absurd hover (hlast us hus)
    subst hnil hnil'
    have hstep : c.advance? = c.nextLine? := by rw [Cursor.advance?, hrest]; rfl
    have hstep' : c'.advance? = c'.nextLine? := by rw [Cursor.advance?, hrest']; rfl
    rw [hstep, hstep']
    exact t.nextLine? h

/-- The reader is on a backslash that takes the percent sign of a comment along. -/
def Escapes (b : Buffer) (c : Cursor) : Prop :=
  c.octet = .first '\\' ∧
    ∃ d, c.advance? = some d ∧ d.octet = .first '%' ∧ b.isGenuine d.position = true

/-- The reader of a group comes to a backslash that takes the percent sign of a
comment along. -/
inductive Strays (b : Buffer) (k : Delimiter) : Nat → Cursor → Prop where
  | here {n : Nat} {c : Cursor} : c.Escapes b → Strays b k n c
  | onward {n : Nat} {c d : Cursor} : ¬ (c.octet = .first k.closer ∧ n = 0) →
      c.onward? = some d → Strays b k (k.depthAfter c.octet n) d → Strays b k n c

theorem Tracks.onward? (h : b.Alike b') (t : Tracks b b' c c') (hescapes : ¬ c.Escapes b) :
    Option.Rel (Tracks b b') c.onward? c'.onward? := by
  rw [Cursor.onward?, Cursor.onward?, t.octet_eq h]
  by_cases hesc : c.octet = .first '\\'
  · rw [if_pos hesc, if_pos hesc]
    have hstep := t.advance? h fun hcom => by
      rw [hesc] at hcom
      exact absurd hcom.1 (by decide)
    exact rel_bind hstep fun d d' hd _ htracks =>
      htracks.advance? h fun hcom => hescapes ⟨hesc, d, hd, hcom⟩
  · rw [if_neg hesc, if_neg hesc]
    by_cases hcom : c.octet = .first '%'
    · rw [if_pos hcom, if_pos hcom]
      exact t.nextLine? h
    · rw [if_neg hcom, if_neg hcom]
      exact t.advance? h fun h => hcom h.1

/-- Both readers of a group find the same closing delimiter, unless they stray. -/
theorem Tracks.matchClose? {k : Delimiter} {n : Nat} (h : b.Alike b') (t : Tracks b b' c c')
    (hstrays : ¬ c.Strays b k n) :
    Option.Rel (Tracks b b') (c.matchClose? k n) (c'.matchClose? k n) := by
  induction hr : c.remaining using Nat.strongRecOn generalizing n c c' with
  | ind r ih =>
    rw [matchClose?_eq, matchClose?_eq k n c', t.octet_eq h]
    by_cases hclose : c.octet = .first k.closer ∧ n = 0
    · rw [if_pos hclose, if_pos hclose]
      exact Option.Rel.some t
    · rw [if_neg hclose, if_neg hclose]
      have hstep := t.onward? h fun hesc => hstrays (.here hesc)
      refine rel_bind hstep fun d d' hd _ htracks => ?_
      have hless := onward?_remaining hd
      rw [hr] at hless
      exact ih d.remaining hless htracks (fun hs => hstrays (.onward hclose hd hs)) rfl

/-- A reader that is not on a percent sign passes the rest of its character. -/
theorem Tracks.advanceBy? {m : Nat} {more : List Octet} (h : b.Alike b') (t : Tracks b b' c c')
    (hcom : c.octet ≠ .first '%') (hrest : c.rest = List.replicate m .later ++ more) :
    Option.Rel (Tracks b b') (Cursor.advanceBy? (m + 1) c) (Cursor.advanceBy? (m + 1) c') := by
  have hstep := t.advance? h fun hcomment => hcom hcomment.1
  induction m generalizing c c' with
  | zero =>
    rw [Cursor.advanceBy?, Cursor.advanceBy?]
    exact rel_bind hstep fun d d' _ _ htracks => Option.Rel.some htracks
  | succ m ih =>
    rw [Cursor.advanceBy?, Cursor.advanceBy?]
    refine rel_bind hstep fun d d' hd _ htracks => ?_
    rw [Cursor.advance?, hrest] at hd
    cases hd
    exact ih htracks (by simp) rfl (htracks.advance? h (by simp))

theorem Tracks.skipBlank? (h : b.Alike b') (t : Tracks b b' c c') :
    Option.Rel (Tracks b b') c.skipBlank? c'.skipBlank? := by
  induction hr : c.remaining using Nat.strongRecOn generalizing c c' with
  | ind r ih =>
    cases ho : c.octet with
    | later =>
      rw [skipBlank?_later ho, skipBlank?_later (by rw [t.octet_eq h, ho])]
      exact Option.Rel.some t
    | first ch =>
      rw [skipBlank?_first ho, skipBlank?_first (by rw [t.octet_eq h, ho])]
      by_cases hcom : ch = '%'
      · rw [if_pos hcom, if_pos hcom]
        refine rel_bind (t.nextLine? h) fun d d' hd _ htracks => ?_
        have hless := nextLine?_remaining hd
        rw [hr] at hless
        exact ih d.remaining hless htracks rfl
      · rw [if_neg hcom, if_neg hcom]
        by_cases hblank : isBlank ch = true
        · rw [if_pos hblank, if_pos hblank]
          have hpos := ch.utf8Size_pos
          obtain ⟨l, -, hl⟩ := t.on
          rw [ho] at hl
          obtain ⟨us, vs, -, -, hrest⟩ := Text.exists_of_drop_octets hl
          have hstep := @Tracks.advanceBy? b b' c c' (ch.utf8Size - 1) _ h t
            (by rw [ho]; simpa using hcom) hrest
          rw [Nat.sub_add_cancel hpos] at hstep
          refine rel_bind hstep fun d d' hd _ htracks => ?_
          have hless := advanceBy?_remaining hd
          exact ih d.remaining (by omega) htracks rfl
        · rw [if_neg hblank, if_neg hblank]
          exact Option.Rel.some t

/-! ## Arguments -/

/-- The reader of the group that opens at the cursor strays. -/
def StraysInside (b : Buffer) (k : Delimiter) (c : Cursor) : Prop :=
  c.octet = .first k.opener ∧ ∃ start, c.advance? = some start ∧ start.Strays b k 0

theorem Tracks.skipShortTitle? (h : b.Alike b') (t : Tracks b b' c c')
    (hopen : c.octet = .first '[') (hstrays : ¬ c.StraysInside b .bracket) :
    Option.Rel (Tracks b b') c.skipShortTitle? c'.skipShortTitle? := by
  have hstep := t.advance? h fun hcom => by
    rw [hopen] at hcom
    exact absurd hcom.1 (by decide)
  rw [skipShortTitle?_eq, skipShortTitle?_eq]
  refine rel_bind hstep fun start start' hstart _ htracks => ?_
  have hfind := @Tracks.matchClose? b b' start start' .bracket 0 h htracks
    fun hs => hstrays ⟨hopen, start, hstart, hs⟩
  refine rel_bind hfind fun close close' hclose _ htracks' => ?_
  have hafter := htracks'.advance? h fun hcom => by
    rw [(htracks.on.matchClose? hclose).2.1] at hcom
    exact absurd hcom.1 (by decide)
  exact rel_bind hafter fun d d' _ _ htracks'' => htracks''.skipBlank? h

end

end Cursor

namespace Title

/-- Comments have no effect on a title. -/
theorem uncomment_bare (cs : List Char) :
    uncomment false (Text.bare .plain cs) = uncomment false cs := by
  have hboth : ∀ (inComment : Bool) (cs : List Char),
      uncomment inComment (Text.refill [] (Occurrence.gapMark inComment) cs) =
        uncomment inComment cs := by
    intro inComment cs
    fun_induction uncomment inComment cs with
    | case1 inComment =>
      have hnil : Text.refill [] (Occurrence.gapMark inComment) [] = [] := by
        cases inComment <;> rfl
      rw [hnil, uncomment]
    | case2 cs ih =>
      rw [show Occurrence.gapMark true = .comment from rfl, Text.refill_comment_newline,
        List.nil_append, uncomment, if_pos rfl]
      exact congrArg _ ih
    | case3 c cs hc ih =>
      rw [show Occurrence.gapMark true = .comment from rfl, Text.refill_comment_cons [] hc]
      exact ih
    | case4 => rfl
    | case5 cs ih =>
      show uncomment false ('\\' :: '%' :: Text.refill [] .plain cs) = _
      rw [uncomment_escaped_percent]
      exact congrArg _ ih
    | case6 c cs hc ih =>
      have hpair : Text.refill [] (Occurrence.gapMark false) ('\\' :: c :: cs) =
          '\\' :: c :: Text.refill [] .plain cs := by
        rw [Text.refill_cons [] (by decide), Text.refill_cons [] (by decide)]
        exact congrArg (fun m => '\\' :: c :: Text.refill [] m cs) (Mark.next_escaped c)
      rw [hpair, uncomment_escaped hc]
      exact congrArg (fun ds => '\\' :: c :: ds) ih
    | case7 cs _ _ ih =>
      show uncomment false ('%' :: Text.refill [] .comment cs) = _
      rw [uncomment_percent]
      exact ih
    | case8 c cs hone htwo hc ih =>
      have hesc : c ≠ '\\' := by
        rintro rfl
        cases cs with
        | nil => exact hone rfl rfl
        | cons d ds => exact htwo d ds rfl rfl
      rw [Text.refill_cons [] (by decide), Mark.next_of_ne (by decide) hesc hc,
        uncomment_of_ne hesc hc]
      exact congrArg _ ih
  exact hboth false cs

end Title

namespace Cursor

variable {b b' : Buffer} {c c' : Cursor}

theorem On.exists_splits {ch : Char} (hc : c.On b) (h : c.octet = .first ch) :
    ∃ us vs, b.Splits c.position us (ch :: vs) := by
  obtain ⟨l, hl, ho⟩ := hc
  rw [h] at ho
  obtain ⟨ws, xs, rfl, hcol, -⟩ := Text.exists_of_drop_octets ho
  have hline : (Text.lines b.text)[c.position.row]? = some (ws ++ ch :: xs) := by
    rw [← b.lines_eq]
    exact Buffer.line?_of_drop_lines hl
  obtain ⟨us, vs, htext, hplace, hvs⟩ := Buffer.exists_split_lines c.position.row hline
  refine ⟨us, vs.tail, ?_, by rw [hplace, ← hcol]⟩
  obtain ⟨-, ⟨-, rfl⟩ | ⟨vs', rfl, -⟩⟩ := Text.lines_eq_cons hvs
  · exact htext
  · exact htext

/-- Behind an opening brace the place is plain. -/
theorem On.after_start {start : Cursor} {us vs : List Char} (hc : c.On b)
    (hopen : c.octet = .first '{') (hshows : b.Shows c.position)
    (hstart : c.advance? = some start) (hs : b.Splits start.position us vs) :
    Mark.plain.after us = .plain := by
  obtain ⟨us₀, vs₀, hs₀⟩ := hc.exists_splits hopen
  unfold Cursor.advance? at hstart
  split at hstart
  · cases hstart
    have hnext := hs₀.step
    rw [Position.after_of_ne _ (by decide)] at hnext
    obtain ⟨rfl, -⟩ := hs.unique hnext
    rw [Mark.after_append]
    show (Mark.plain.after us₀).next '{' = .plain
    exact Mark.next_of_ne (hs₀.after_of_shows hshows) (by decide) (by decide)
  · obtain ⟨-, hcol, -⟩ := hc.nextLine? hstart
    rw [hs.column_eq] at hcol
    rw [← Mark.after_lastLine, Text.byteLength_eq_zero hcol]
    rfl

/-- The text between two places, from a plain one on, gives the same title in both
buffers. -/
theorem clean_excerpt?_eq (h : b.Alike b') {p q : Position} {us vs us₂ vs₂ : List Char}
    (hs : b.Splits p us vs) (hplain : Mark.plain.after us = .plain) (hs₂ : b.Splits q us₂ vs₂)
    (hover : Mark.plain.after us₂ ≠ .comment) (hle : p ≤ q) :
    (b'.excerpt? ⟨p, q⟩).map Title.clean = (b.excerpt? ⟨p, q⟩).map Title.clean := by
  obtain ⟨us', vs', hs', hplain', hbare⟩ := h.exists_splits hs (by rw [hplain]; simp)
  obtain ⟨us₂', vs₂', hs₂', hover', hbare₂⟩ := h.exists_splits hs₂ hover
  obtain ⟨raw, rfl, rfl⟩ := hs.exists_append_of_le hs₂ hle
  obtain ⟨raw', rfl, rfl⟩ := hs'.exists_append_of_le hs₂' hle
  rw [hplain] at hplain' hbare
  simp only [Mark.after_append, hplain, hplain'] at hover hover' hbare₂
  have hraw : Text.bare .plain raw' = Text.bare .plain raw := by
    rw [Text.bare, Text.refill_append [] (by rw [hover']; exact hover),
      Text.refill_append [] hover, hover'] at hbare
    rw [Text.bare] at hbare₂
    rw [hbare₂] at hbare
    exact List.append_cancel_right hbare
  rw [hs.excerpt? hs₂, hs'.excerpt? hs₂', Option.map_some, Option.map_some, Title.clean,
    Title.clean, ← Title.uncomment_bare raw', hraw, Title.uncomment_bare]

/-- Both readers find the same argument with the same title, unless they stray. -/
theorem Tracks.bracedRange? (h : b.Alike b') (t : Tracks b b' c c')
    (hstrays : ¬ c.StraysInside b .brace) :
    Option.Rel (fun r r' => r' = r ∧
      (b'.excerpt? r).map Title.clean = (b.excerpt? r).map Title.clean)
      c.bracedRange? c'.bracedRange? := by
  rw [bracedRange?_eq, bracedRange?_eq, t.octet_eq h]
  by_cases hopen : c.octet = .first '{'
  · rw [if_pos hopen, if_pos hopen]
    have hstep := t.advance? h fun hcom => by
      rw [hopen] at hcom
      exact absurd hcom.1 (by decide)
    refine rel_bind hstep fun start start' hstart _ htracks => ?_
    have hfind := @Tracks.matchClose? b b' start start' .brace 0 h htracks
      fun hs => hstrays ⟨hopen, start, hstart, hs⟩
    rw [Option.map_eq_bind, Option.map_eq_bind]
    refine rel_bind hfind fun close close' hclose _ htracks' => ?_
    obtain ⟨hon, hoctet, hle⟩ := htracks.on.matchClose? hclose
    obtain ⟨ch, hch⟩ := t.on.exists_first_of_advance? hopen (by decide) hstart
    obtain ⟨us, vs, hs⟩ := htracks.on.exists_splits hch
    obtain ⟨us₂, vs₂, hs₂⟩ := hon.exists_splits hoctet
    have hrange : Range.between start.position close.position =
        ⟨start.position, close.position⟩ := if_pos hle
    have hrange' : Range.between start'.position close'.position =
        ⟨start.position, close.position⟩ := by
      rw [htracks.position_eq, htracks'.position_eq, hrange]
    simp only [Function.comp_apply, hrange, hrange']
    refine Option.Rel.some ⟨rfl, ?_⟩
    exact clean_excerpt?_eq h hs (t.on.after_start hopen t.shows hstart hs) hs₂
      (hs₂.after_of_shows htracks'.shows) hle
  · rw [if_neg hopen, if_neg hopen]
    exact Option.Rel.none

end Cursor

namespace Occurrence

/-- The reader of the argument of an occurrence strays. -/
def Strays (b : Buffer) (o : Occurrence) : Prop :=
  ∃ c, (b.cursorAt? o.delimiter).bind Cursor.skipBlank? = some c ∧
    ((∃ k, c.StraysInside b k) ∨
      ∃ d, c.octet = .first '[' ∧ c.skipShortTitle? = some d ∧ d.StraysInside b .brace)

variable {b b' : Buffer} {o : Occurrence}

/-- Two readers that start at the same delimiter find the same argument. -/
theorem reading_eq_of_tracks (h : b.Alike b') (hid : b'.id = b.id)
    (hgenuine : o.isGenuine b' = o.isGenuine b)
    (htracks : Option.Rel (Cursor.Tracks b b') (b.cursorAt? o.delimiter) (b'.cursorAt? o.delimiter))
    (hstrays : ¬ o.Strays b) : o.reading b' = o.reading b := by
  have hargument : Option.Rel (fun r r' => r' = r ∧
      (b'.excerpt? r).map Title.clean = (b.excerpt? r).map Title.clean)
      (o.argument? b) (o.argument? b') := by
    rw [argument?, argument?, hgenuine]
    by_cases hg : o.isGenuine b = true
    · rw [if_pos hg, if_pos hg]
      refine Cursor.rel_bind htracks fun c₀ c₀' hc₀ _ t₀ => ?_
      refine Cursor.rel_bind (t₀.skipBlank? h) fun c c' hc _ t => ?_
      have hcursor : (b.cursorAt? o.delimiter).bind Cursor.skipBlank? = some c := by
        rw [hc₀]
        exact hc
      have hinside : ∀ k, ¬ c.StraysInside b k := fun k hs =>
        hstrays ⟨c, hcursor, Or.inl ⟨k, hs⟩⟩
      rw [Cursor.passShortTitle?, Cursor.passShortTitle?, t.octet_eq h]
      by_cases hopen : c.octet = .first '['
      · rw [if_pos hopen, if_pos hopen]
        refine Cursor.rel_bind (t.skipShortTitle? h hopen (hinside .bracket))
          fun d d' hd _ t' => ?_
        exact t'.bracedRange? h fun hs =>
          hstrays ⟨c, hcursor, Or.inr ⟨d, hopen, hd, hs⟩⟩
      · rw [if_neg hopen, if_neg hopen]
        exact t.bracedRange? h (hinside .brace)
    · rw [if_neg hg, if_neg hg]
      exact Option.Rel.none
  unfold reading
  cases hr : o.argument? b with
  | none =>
    rw [hr] at hargument
    cases hr' : o.argument? b' with
    | none => rfl
    | some r' =>
      rw [hr'] at hargument
      cases hargument
  | some r =>
    rw [hr] at hargument
    cases hr' : o.argument? b' with
    | none =>
      rw [hr'] at hargument
      cases hargument
    | some r' =>
      rw [hr'] at hargument
      cases hargument with
      | some hsame =>
        obtain ⟨rfl, hclean⟩ := hsame
        obtain ⟨raw, hraw⟩ := exists_excerpt? hr
        obtain ⟨raw', hraw'⟩ := exists_excerpt? hr'
        rw [hraw, hraw', Option.map_some, Option.map_some, Option.some.injEq] at hclean
        simp only [hraw, hraw', Option.getD_some, hid, hclean]

end Occurrence
end Sectioning
