/-
Comments and the entries of a text.

The accepted entries of a text do not depend on its comments, unless the text is
exposed: a command is loose, or a reader strays into a comment.  The condition is
exact (`Buffer.comments_without_effect_iff`), because the comments of an exposed
text can be filled in two ways that give different entries.  A loose command gets
one title or another.  So does a command whose reader strays in the short title.  A
command whose reader strays in the title has one under the first filling and none
under the second.
-/
import Sectioning.Proofs.StrayFills

namespace Sectioning

namespace Title

/-- A character outside comments stays in a title, unless it is a backslash before
a percent sign. -/
theorem mem_uncomment {c : Char} {inComment : Bool} {us vs : List Char} (hcom : c ≠ '%')
    (hover : (Occurrence.gapMark inComment).after us ≠ .comment)
    (hpair : (Occurrence.gapMark inComment).after us = .plain → c = '\\' → vs.head? ≠ some '%') :
    c ∈ uncomment inComment (us ++ c :: vs) := by
  -- a backslash goes together with the character after it
  induction hn : us.length using Nat.strongRecOn generalizing inComment us with
  | ind n ih =>
    cases inComment with
    | true =>
      cases us with
      | nil => exact absurd rfl hover
      | cons u us =>
        rw [List.length_cons] at hn
        rw [List.cons_append, uncomment]
        by_cases hu : u = '\n'
        · subst hu
          rw [if_pos rfl]
          exact List.mem_cons_of_mem _ (@ih us.length (by omega) false us hover hpair rfl)
        · rw [if_neg hu]
          have hnext : (Occurrence.gapMark true).after (u :: us) =
              (Occurrence.gapMark true).after us :=
            congrArg (Mark.after · us) (Mark.next_comment hu)
          rw [hnext] at hover hpair
          exact @ih us.length (by omega) true us hover hpair rfl
    | false =>
      cases us with
      | nil =>
        rw [List.nil_append]
        by_cases hc : c = '\\'
        · subst hc
          cases vs with
          | nil => exact List.mem_cons_self
          | cons v vs =>
            have hv : v ≠ '%' := fun hv => hpair rfl rfl (by rw [hv]; rfl)
            rw [uncomment_escaped hv]
            exact List.mem_cons_self
        · rw [uncomment_of_ne hc hcom]
          exact List.mem_cons_self
      | cons u us =>
        rw [List.length_cons] at hn
        rw [List.cons_append]
        by_cases hesc : u = '\\'
        · subst hesc
          cases us with
          | nil =>
            rw [List.nil_append, uncomment_escaped hcom]
            exact List.mem_cons_of_mem _ List.mem_cons_self
          | cons d us =>
            rw [List.length_cons] at hn
            have hnext : (Occurrence.gapMark false).after ('\\' :: d :: us) =
                (Occurrence.gapMark false).after us :=
              congrArg (Mark.after · us) (Mark.next_escaped d)
            rw [hnext] at hover hpair
            have hmem := @ih us.length (by omega) false us hover hpair rfl
            rw [List.cons_append]
            by_cases hd : d = '%'
            · rw [hd, uncomment_escaped_percent]
              exact List.mem_cons_of_mem _ hmem
            · rw [uncomment_escaped hd]
              exact List.mem_cons_of_mem _ (List.mem_cons_of_mem _ hmem)
        · by_cases hu : u = '%'
          · subst hu
            rw [uncomment_percent]
            exact @ih us.length (by omega) true us hover hpair rfl
          · have hnext : (Occurrence.gapMark false).after (u :: us) =
                (Occurrence.gapMark false).after us :=
              congrArg (Mark.after · us) (Mark.next_of_ne (by decide) hesc hu)
            rw [hnext] at hover hpair
            rw [uncomment_of_ne hesc hu]
            exact List.mem_cons_of_mem _ (@ih us.length (by omega) false us hover hpair rfl)

end Title

namespace Cursor

variable {b b' : Buffer} {c c' d d' : Cursor} {k : Delimiter}

theorem Escapes.of_tracks (h : b.Alike b') (hd : d.Escapes b) (t : Tracks b b' d d') :
    d'.Escapes b' := by
  obtain ⟨e, e', us, vs, he', te, hs, hplain⟩ := hd.exists_percent h t
  have hgenuine := h.isGenuine hs (hs.isGenuine_iff.2 hplain)
  have hoctet : e.octet = .first '%' := by
    obtain ⟨l, ls, hl⟩ := Text.exists_lines_eq_cons vs
    have hcursor := hs.cursorAt? (by decide) hl
    rw [Buffer.cursorAt?_eq_some_iff.2 ⟨rfl, te.on⟩, Option.some.injEq] at hcursor
    rw [hcursor]
    rfl
  refine ⟨by rw [t.octet_eq h, hd.1], e', he', by rw [te.octet_eq h, hoctet], ?_⟩
  rw [te.position_eq]
  exact hgenuine

/-- The percent sign that a backslash takes along does not follow it, unless the
backslash is itself escaped. -/
theorem Escapes.head?_ne {us vs : List Char} (hd : d.Escapes b) (hon : d.On b)
    (hs : b.Splits d.position us ('\\' :: vs)) (hplain : Mark.plain.after us = .plain) :
    vs.head? ≠ some '%' := by
  intro hhead
  obtain ⟨-, e, he, -, hgenuine⟩ := hd
  have hvs := Occurrence.cons_tail_of_head? hhead
  rw [hvs] at hs
  obtain ⟨l, ls, hl⟩ := Text.exists_lines_eq_cons vs.tail
  have hcursor := hs.cursorAt? (by decide) (Text.lines_cons (by decide) hl)
  rw [Buffer.cursorAt?_eq_some_iff.2 ⟨rfl, hon⟩, Option.some.injEq] at hcursor
  have hplace : e.position = d.position.after '\\' := by
    rw [hcursor] at he
    cases he
    rfl
  have hafter := hs.step
  rw [hplace, hafter.isGenuine_iff, Mark.after_append, hplain] at hgenuine
  cases hgenuine

/-- A title with such a backslash in it is not empty. -/
theorem Escapes.exists_title {p q : Position} {us vs us₂ vs₂ : List Char} (hd : d.Escapes b)
    (hon : d.On b) (hshows : b.Shows d.position) (hs : b.Splits p us vs)
    (hplain : Mark.plain.after us = .plain) (hs₂ : b.Splits q us₂ vs₂) (hle : p ≤ d.position)
    (hlt : d.position < q) :
    ∃ raw, b.excerpt? ⟨p, q⟩ = some raw ∧ Title.clean raw ≠ [] := by
  obtain ⟨usd, vsd, hsd⟩ := hon.exists_splits hd.1
  have hover := hsd.after_of_shows hshows
  have hhead := hd.head?_ne hon hsd
  have hafter : d.position.after '\\' ≤ q := by
    rw [Position.after_of_ne _ (by decide), show Char.utf8Size '\\' = 1 from rfl]
    rw [Position.lt_iff] at hlt
    exact hlt.imp id fun h => ⟨h.1, h.2⟩
  obtain ⟨ws, rfl, rfl⟩ := hs.exists_append_of_le hsd hle
  obtain ⟨xs, rfl, rfl⟩ := hsd.step.exists_append_of_le hs₂ hafter
  rw [Mark.after_append, hplain] at hover hhead
  have hexcerpt : b.excerpt? ⟨p, q⟩ = some (ws ++ '\\' :: xs) := by
    refine @Buffer.Splits.excerpt? b p q us vs₂ (ws ++ '\\' :: xs) ?_ ?_
    · rw [List.append_assoc]
      exact hs
    · have hjoin : us ++ ws ++ ['\\'] ++ xs = us ++ (ws ++ '\\' :: xs) := by simp
      rw [← hjoin]
      exact hs₂
  refine ⟨_, hexcerpt, ?_⟩
  have hmem : '\\' ∈ Title.uncomment false (ws ++ '\\' :: xs) := by
    refine Title.mem_uncomment (by decide) hover fun hover' _ hxs => hhead hover' ?_
    rw [List.head?_append, hxs]
    rfl
  exact Text.collapse_ne_nil hmem (by decide)

/-! ## Groups whose reader strays -/

/-- The reader of a group that strays reads what the comment is filled with, at a
depth that does not depend on it. -/
theorem StraysInside.exists_fill (hc : c.StraysInside b k) :
    ∃ m, ∀ w, '\n' ∉ w → ∀ c', Tracks b (b.refill w) c c' →
      ∃ start d : Cursor, ∃ p us more ls, c'.advance? = some start ∧ d.Escapes (b.refill w) ∧
        d.On (b.refill w) ∧ (b.refill w).Shows d.position ∧ start.position ≤ d.position ∧
        d.position < p ∧ (b.refill w).Splits p us (w ++ more) ∧
        Text.lines (w ++ more) = w :: ls ∧
        matchClose? k 0 start = (before? p w ls).bind (matchClose? k m) := by
  obtain ⟨hopen, start, hstart, hstrays⟩ := hc
  obtain ⟨m, d, hd, hread⟩ := hstrays.exists_escape
  refine ⟨m, fun w hw c' t => ?_⟩
  have halike := b.alike_refill hw
  have hstep := t.advance? halike fun hcom => by
    rw [hopen] at hcom
    cases k <;> exact absurd hcom.1 (by decide)
  rw [hstart] at hstep
  obtain ⟨start', hstart', ts⟩ := exists_of_rel_some hstep
  obtain ⟨d', td, hle, hfind⟩ := hread _ start' halike ts
  obtain ⟨p, us, more, ls, hs, hls, hlt, hfill⟩ := hd.exists_fill hw td
  exact ⟨start', d', p, us, more, ls, hstart', hd.of_tracks halike td, td.on',
    (td.symm halike).shows, hle, hlt, hs, hls, by rw [hfind, hfill]⟩

theorem newline_notMem_replicate {x : Char} (hx : x ≠ '\n') (m : Nat) :
    '\n' ∉ List.replicate m x := fun h => hx (List.eq_of_mem_replicate h).symm

/-- Closing braces in the comment end the title. -/
theorem StraysInside.exists_title (hc : c.StraysInside b .brace) :
    ∃ w, '\n' ∉ w ∧ ∀ c', Tracks b (b.refill w) c c' →
      ∃ r raw, c'.bracedRange? = some r ∧ (b.refill w).excerpt? r = some raw ∧
        Title.clean raw ≠ [] := by
  have hopen := hc.1
  obtain ⟨m, hfill⟩ := hc.exists_fill
  have hw := newline_notMem_replicate (show '}' ≠ '\n' by decide) (m + 1)
  refine ⟨_, hw, fun c' t => ?_⟩
  have halike := b.alike_refill hw
  have hopen' : c'.octet = .first '{' := (t.octet_eq halike).trans hopen
  obtain ⟨start, d, p, us, more, ls, hstart, hd, hon, hshows, hle, hlt, hs, -, hfind⟩ :=
    hfill _ hw c' t
  have hclose := matchClose?_closers .brace m p [] ls
  rw [List.append_nil] at hclose
  rw [show Delimiter.brace.closer = '}' from rfl] at hclose
  rw [hclose] at hfind
  have hsplit : List.replicate (m + 1) '}' ++ more = List.replicate m '}' ++ ('}' :: more) := by
    rw [List.replicate_succ']
    simp
  rw [hsplit] at hs
  obtain ⟨ch, hch⟩ := t.on'.exists_first_of_advance? hopen' (by decide) hstart
  obtain ⟨hon', hbefore⟩ := t.on'.advance? hstart
  obtain ⟨us₁, vs₁, hs₁⟩ := hon'.exists_splits hch
  have hplain := t.on'.after_start hopen' (t.symm halike).shows hstart hs₁
  have hend : d.position < p.afterAll (List.replicate m '}') := by
    have hafter := Position.le_afterAll (List.replicate m '}') p
    rw [Position.le_iff] at hafter
    rw [Position.lt_iff] at hlt ⊢
    omega
  obtain ⟨raw, hraw, hclean⟩ :=
    hd.exists_title hon hshows hs₁ hplain hs.steps hle hend
  refine ⟨_, raw, ?_, hraw, hclean⟩
  rw [Cursor.bracedRange?_eq, if_pos hopen', hstart, Option.bind_some, hfind, Option.map_some]
  exact congrArg some (if_pos (hon'.matchClose? hfind).2.2)

/-- Opening braces in the comment leave the title without an end. -/
theorem StraysInside.exists_bracedRange?_eq_none (hc : c.StraysInside b .brace) :
    ∃ w, '\n' ∉ w ∧ ∀ c', Tracks b (b.refill w) c c' → c'.bracedRange? = none := by
  have hopen := hc.1
  obtain ⟨m, hfill⟩ := hc.exists_fill
  have hw := newline_notMem_replicate (show '{' ≠ '\n' by decide) (b.text.count '}')
  refine ⟨_, hw, fun c' t => ?_⟩
  have hopen' : c'.octet = .first '{' := (t.octet_eq (b.alike_refill hw)).trans hopen
  obtain ⟨start, d, p, us, more, ls, hstart, -, -, -, -, -, hs, hls, hfind⟩ := hfill _ hw c' t
  have hcount : ls.flatten.count '}' ≤ b.text.count '}' := by
    have hlines := Text.count_flatten_lines_le '}' (List.replicate (b.text.count '}') '{' ++ more)
    rw [hls, List.flatten_cons, List.count_append] at hlines
    have htext := congrArg (List.count '}') hs.text_eq
    rw [List.count_append] at htext
    have hrefill := Text.count_refill_le (fun h => absurd (List.eq_of_mem_replicate h) (by decide) :
      '}' ∉ List.replicate (b.text.count '}') '{') .plain b.text
    change (b.refill _).text.count '}' ≤ _ at hrefill
    omega
  have hnone := @matchClose?_openers_eq_none .brace _ ls hcount m p
  rw [Cursor.bracedRange?_eq, if_pos hopen', hstart, Option.bind_some, hfind]
  exact congrArg (Option.map _) hnone

/-- Closing brackets in the comment end the short title, and the title follows. -/
theorem StraysInside.exists_skipShortTitle? (hc : c.StraysInside b .bracket) {x : Char}
    (hx : x ≠ '\n') :
    ∃ w, '\n' ∉ w ∧ ∀ c', Tracks b (b.refill w) c c' →
      ∃ q us more e, (b.refill w).Splits q us (Occurrence.titleFill x ++ more) ∧
        (b.refill w).cursorAt? q = some e ∧ c'.skipShortTitle? = some e := by
  obtain ⟨m, hfill⟩ := hc.exists_fill
  have hw : '\n' ∉ List.replicate (m + 1) ']' ++ Occurrence.titleFill x := by
    rw [List.mem_append, not_or]
    exact ⟨newline_notMem_replicate (by decide) _, Occurrence.newline_notMem_titleFill hx⟩
  refine ⟨_, hw, fun c' t => ?_⟩
  obtain ⟨start, d, p, us, more, ls, hstart, -, -, -, -, -, hs, -, hfind⟩ := hfill _ hw c' t
  have hclose := matchClose?_closers .bracket m p (Occurrence.titleFill x) ls
  rw [show Delimiter.bracket.closer = ']' from rfl] at hclose
  rw [hclose] at hfind
  have hskip : c'.skipShortTitle? =
      some (before ((p.afterAll (List.replicate m ']')).after ']') '{' [x, '}'] ls) := by
    rw [Cursor.skipShortTitle?_eq, hstart, Option.bind_some, hfind, Option.bind_some]
    exact Manuscript.skipBlank?_before (by decide) (by decide) _ _ _
  have hsplit : List.replicate (m + 1) ']' ++ Occurrence.titleFill x ++ more =
      List.replicate m ']' ++ (']' :: (Occurrence.titleFill x ++ more)) := by
    rw [List.replicate_succ']
    simp
  rw [hsplit] at hs
  exact ⟨_, _, more, _, hs.steps.step,
    Buffer.cursorAt?_eq_some_iff.2 ⟨rfl, t.on'.skipShortTitle? hskip⟩, hskip⟩

end Cursor
namespace Occurrence

variable {b b' : Buffer} {o o' : Occurrence}

theorem entryOf_ne_rejected (o : Occurrence) (source : SourceId) {title : List Char}
    (h : title ≠ []) : o.entryOf source title ≠ .rejected := by
  have hempty : ¬ title.isEmpty = true := by simpa using h
  rw [entryOf, if_neg hempty]
  cases o.keyword.level? <;> simp

theorem title_eq_of_entryOf_eq {source : SourceId} {title title' : List Char} (h : title ≠ [])
    (h' : title' ≠ []) (heq : o.entryOf source title = o'.entryOf source title') :
    title = title' := by
  have hempty : ¬ title.isEmpty = true := by simpa using h
  have hempty' : ¬ title'.isEmpty = true := by simpa using h'
  rw [entryOf, if_neg hempty, entryOf, if_neg hempty'] at heq
  have hstring : String.ofList title = String.ofList title' := by
    cases hl : o.keyword.level? <;> cases hl' : o'.keyword.level? <;> rw [hl, hl'] at heq <;>
      simp_all
  simpa using congrArg String.toList hstring

/-- Two buffers with the same entries read the same at each place where both have
an occurrence. -/
theorem At.reading_eq_of_accepted_eq (h : b.accepted = b'.accepted) (hat : o.At b)
    (hat' : o'.At b') (hstart : o.range.start = o'.range.start) : o.reading b = o'.reading b' := by
  have hone : ∀ {b b' : Buffer} {o o' : Occurrence}, b.accepted = b'.accepted → o.At b →
      o'.At b' → o.range.start = o'.range.start → o.reading b ≠ .rejected →
      o.reading b = o'.reading b' := by
    intro b b' o o' h hat hat' hstart hne
    have hmem : o.reading b ∈ b'.accepted := by
      rw [← h, Buffer.mem_accepted_iff]
      exact ⟨hne, o, hat, rfl⟩
    obtain ⟨-, o₁, hat₁, hreading⟩ := Buffer.mem_accepted_iff.1 hmem
    have hanchor := (reading_spec hne).2
    rw [← hreading] at hne hanchor
    rw [(reading_spec hne).2, Option.some.injEq, hstart] at hanchor
    rw [← hreading, hat₁.unique hat' hanchor]
  by_cases hne : o.reading b = .rejected
  · by_cases hne' : o'.reading b' = .rejected
    · rw [hne, hne']
    · exact (hone h.symm hat' hat hstart.symm hne').symm
  · exact hone h hat hat' hstart hne

end Occurrence

namespace Buffer

/-- Two fillings of the comments give different entries. -/
def DependsOnComments (b : Buffer) : Prop :=
  ∃ w w', '\n' ∉ w ∧ '\n' ∉ w' ∧ (b.refill w).accepted ≠ (b.refill w').accepted

end Buffer

namespace Occurrence

variable {b : Buffer} {o : Occurrence}

theorem dependsOnComments_of_reading_ne {o o' : Occurrence} {w w' : List Char} (hw : '\n' ∉ w)
    (hw' : '\n' ∉ w') (hat : o.At (b.refill w)) (hat' : o'.At (b.refill w'))
    (hstart : o.range.start = o'.range.start)
    (hne : o.reading (b.refill w) ≠ o'.reading (b.refill w')) : b.DependsOnComments :=
  ⟨w, w', hw, hw', fun h => hne (hat.reading_eq_of_accepted_eq h hat' hstart)⟩

/-- A command that can get any letter for its title. -/
theorem dependsOnComments_of_letters {p : Position}
    (h : ∀ x : Char, x.isAlphanum = true → ∃ w, ∃ o : Occurrence, '\n' ∉ w ∧ o.At (b.refill w) ∧
      o.range.start = p ∧ o.reading (b.refill w) = o.entryOf b.id [x]) :
    b.DependsOnComments := by
  obtain ⟨w, o, hw, hat, hstart, hreading⟩ := h 'a' (by decide)
  obtain ⟨w', o', hw', hat', hstart', hreading'⟩ := h 'b' (by decide)
  refine dependsOnComments_of_reading_ne hw hw' hat hat' (hstart.trans hstart'.symm) ?_
  rw [hreading, hreading']
  intro heq
  exact absurd (title_eq_of_entryOf_eq (by simp) (by simp) heq) (by decide)

theorem dependsOnComments_of_isLoose {p : Position} {us rest : List Char} {k : Keyword}
    (hs : b.Splits p us ('\\' :: (k.name.toList ++ rest))) (hgenuine : b.isGenuine p = true)
    (hloose : isLoose rest = true) : b.DependsOnComments := by
  refine @dependsOnComments_of_letters b p fun x hx => ?_
  obtain ⟨o, hat, hstart, hreading⟩ := exists_reading_of_isLoose hs hgenuine hloose hx
  have hbreak := Manuscript.ne_of_isAlphanum hx (show Char.isAlphanum '\n' = false by decide)
  exact ⟨titleFill x, o, newline_notMem_titleFill hbreak, hat, hstart, hreading⟩

/-- The readers of a genuine command that is not loose come to the same place in
all buffers that differ in comments alone. -/
theorem At.exists_reader {b' : Buffer} {c : Cursor} (h : b.Alike b') (hat : o.At b)
    (hgenuine : o.isGenuine b = true) (hfirm : FirmAt b o.range.start)
    (hc : (b.cursorAt? o.delimiter).bind Cursor.skipBlank? = some c) :
    ∃ c', (b'.cursorAt? o.delimiter).bind Cursor.skipBlank? = some c' ∧
      Cursor.Tracks b b' c c' := by
  obtain ⟨us, d, vs, hs, hd, hplain⟩ := hat.exists_delimiter hgenuine hfirm
  have hne : d ≠ '\n' := by rcases hd with rfl | rfl <;> decide
  have hrel := Cursor.rel_bind (hs.exists_tracks h hne (by rw [hplain]; simp))
    fun _ _ _ _ t => t.skipBlank? h
  rw [hc] at hrel
  exact Cursor.exists_of_rel_some hrel

theorem dependsOnComments_of_brace {c : Cursor} (hc : c.StraysInside b .brace)
    (hat : ∀ b', b.Alike b' → o.At b' ∧ o.isGenuine b' = true)
    (hpass : ∀ b', b.Alike b' → ∃ c', (b'.cursorAt? o.delimiter).bind
      (fun c => c.skipBlank?.bind Cursor.passShortTitle?) = some c' ∧ Cursor.Tracks b b' c c') :
    b.DependsOnComments := by
  obtain ⟨w, hw, hclosed⟩ := hc.exists_title
  obtain ⟨w', hw', hopen⟩ := hc.exists_bracedRange?_eq_none
  obtain ⟨hat₁, hgenuine₁⟩ := hat _ (b.alike_refill hw)
  obtain ⟨hat₂, hgenuine₂⟩ := hat _ (b.alike_refill hw')
  refine dependsOnComments_of_reading_ne hw hw' hat₁ hat₂ rfl ?_
  obtain ⟨c₁, hpass₁, t₁⟩ := hpass _ (b.alike_refill hw)
  obtain ⟨c₂, hpass₂, t₂⟩ := hpass _ (b.alike_refill hw')
  obtain ⟨r, raw, hr, hraw, hclean⟩ := hclosed c₁ t₁
  have hreading : o.reading (b.refill w') = .rejected := by
    rw [reading, argument?_eq hgenuine₂ hpass₂, hopen c₂ t₂]
  rw [hreading, reading, argument?_eq hgenuine₁ hpass₁, hr]
  simp only [hraw, Option.getD_some]
  exact entryOf_ne_rejected o _ hclean

theorem dependsOnComments_of_bracket {c : Cursor} (hc : c.StraysInside b .bracket)
    (hat : ∀ b', b.Alike b' → o.At b' ∧ o.isGenuine b' = true)
    (hread : ∀ b', b.Alike b' → ∃ c', (b'.cursorAt? o.delimiter).bind Cursor.skipBlank? = some c' ∧
      Cursor.Tracks b b' c c') :
    b.DependsOnComments := by
  refine @dependsOnComments_of_letters b o.range.start fun x hx => ?_
  have hbreak := Manuscript.ne_of_isAlphanum hx (show Char.isAlphanum '\n' = false by decide)
  obtain ⟨w, hw, hskip⟩ := hc.exists_skipShortTitle? hbreak
  have halike := b.alike_refill hw
  obtain ⟨c', hc', t⟩ := hread _ halike
  obtain ⟨q, us, more, e, hs, he, hpass⟩ := hskip c' t
  have hopen : c'.octet = .first '[' := (t.octet_eq halike).trans hc.1
  refine ⟨w, o, hw, (hat _ halike).1, rfl, reading_of_titleFill hx (hat _ halike).2 hs he ?_⟩
  rw [← Option.bind_assoc, hc', Option.bind_some, Cursor.passShortTitle?, if_pos hopen, hpass]

theorem dependsOnComments_of_strays (hat : o.At b) (hgenuine : o.isGenuine b = true)
    (hfirm : FirmAt b o.range.start) (hstrays : o.Strays b) : b.DependsOnComments := by
  have hat' : ∀ b', b.Alike b' → o.At b' ∧ o.isGenuine b' = true := by
    intro b' h
    obtain ⟨us, vs, -, hs, -⟩ := id hat
    exact ⟨hat.of_alike h hgenuine hfirm, h.isGenuine hs hgenuine⟩
  obtain ⟨c, hc, hcases⟩ := hstrays
  have hread := fun b' (h : b.Alike b') => hat.exists_reader h hgenuine hfirm hc
  rcases hcases with ⟨k, hk⟩ | ⟨d, hopen, hd, hinside⟩
  · cases k with
    | bracket => exact dependsOnComments_of_bracket hk hat' hread
    | brace =>
      refine dependsOnComments_of_brace hk hat' fun b' h => ?_
      obtain ⟨c', hc', t⟩ := hread b' h
      have hbrace : c'.octet = .first '{' := (t.octet_eq h).trans hk.1
      refine ⟨c', ?_, t⟩
      rw [← Option.bind_assoc, hc', Option.bind_some, Cursor.passShortTitle?,
        if_neg (by rw [hbrace]; decide)]
  · by_cases hk : c.StraysInside b .bracket
    · exact dependsOnComments_of_bracket hk hat' hread
    · refine dependsOnComments_of_brace hinside hat' fun b' h => ?_
      obtain ⟨c', hc', t⟩ := hread b' h
      have hskip := t.skipShortTitle? h hopen hk
      rw [hd] at hskip
      obtain ⟨d', hd', td⟩ := Cursor.exists_of_rel_some hskip
      refine ⟨d', ?_, td⟩
      rw [← Option.bind_assoc, hc', Option.bind_some, Cursor.passShortTitle?,
        if_pos ((t.octet_eq h).trans hopen), hd']

end Occurrence

namespace Buffer

theorem Exposed.dependsOnComments {b : Buffer} (h : b.Exposed) : b.DependsOnComments := by
  cases h with
  | loose hs hgenuine hloose => exact Occurrence.dependsOnComments_of_isLoose hs hgenuine hloose
  | @strays o ho hgenuine hstrays =>
    by_cases hfirm : Occurrence.FirmAt b o.range.start
    · exact Occurrence.dependsOnComments_of_strays (Occurrence.at_of_mem_scan ho) hgenuine hfirm
        hstrays
    · simp only [Occurrence.FirmAt, not_forall] at hfirm
      obtain ⟨us, k, rest, hs, hloose⟩ := hfirm
      exact Occurrence.dependsOnComments_of_isLoose hs hgenuine (by simpa using hloose)

/-- Every buffer is made from some text. -/
theorem exists_ofText (b : Buffer) : ∃ text, b = ofText b.id text := by
  -- a text whose line breaks are written with two characters
  have hbreaks : ∀ cs : List Char, ∃ ds, Text.unifyBreaks ds = cs ∧ ds.head? ≠ some '\n' := by
    intro cs
    induction cs with
    | nil => exact ⟨[], rfl, by simp⟩
    | cons c cs ih =>
      obtain ⟨ds, hds, hhead⟩ := ih
      by_cases hc : c = '\n'
      · refine ⟨'\r' :: '\n' :: ds, ?_, by simp⟩
        rw [Text.unifyBreaks, hds, hc]
      · refine ⟨c :: ds, ?_, by simpa using hc⟩
        rw [Text.unifyBreaks, hds]
        rintro es rfl rfl
        exact hhead rfl
  obtain ⟨text, htext, -⟩ := hbreaks b.text
  obtain ⟨id, cs, ls, hls, starts, hstarts⟩ := b
  subst hls hstarts htext
  exact ⟨text, rfl⟩

theorem entries_map_filter (b : Buffer) :
    (Source.ofBuffer b).entries.map (List.filter Entry.isAccepted) = .ok b.accepted := by
  rw [Source.entries_ofBuffer]
  rfl

/-- Comments have no effect on the headings and inclusions of a text exactly when
the text is not exposed: no genuine command is loose, and no reader of an argument
strays into a comment. -/
theorem comments_without_effect_iff (id : SourceId) (text : List Char) :
    (∀ text', (ofText id text).SameOutsideComments (ofText id text') →
      (Source.ofBuffer (ofText id text')).entries.map (List.filter Entry.isAccepted) =
        (Source.ofBuffer (ofText id text)).entries.map (List.filter Entry.isAccepted)) ↔
      ¬ (ofText id text).Exposed := by
  simp only [entries_map_filter, Except.ok.injEq, sameOutsideComments_iff]
  constructor
  · intro hsame hexposed
    obtain ⟨w, w', hw, hw', hne⟩ := hexposed.dependsOnComments
    have hrefill : ∀ v, '\n' ∉ v → ((ofText id text).refill v).accepted =
        (ofText id text).accepted := by
      intro v hv
      obtain ⟨text', htext'⟩ := ((ofText id text).refill v).exists_ofText
      rw [htext']
      refine hsame text' ?_
      have halike := (ofText id text).alike_refill hv
      rw [htext'] at halike
      exact halike
    exact hne ((hrefill w hw).trans (hrefill w' hw').symm)
  · intro hexposed text' halike
    exact accepted_eq_of_alike halike rfl hexposed

/-- A title that is taken from a comment. -/
theorem title_in_comment :
    (ofText ⟨"main.tex"⟩ "\\section % {a}".toList).SameOutsideComments
      (ofText ⟨"main.tex"⟩ "\\section %".toList) ∧
    (Source.ofBuffer (ofText ⟨"main.tex"⟩ "\\section % {a}".toList)).entries.map
      (List.filter Entry.isAccepted) = .ok [.heading ⟨"a", 3, ⟨0, 0⟩, ⟨"main.tex"⟩⟩] ∧
    (Source.ofBuffer (ofText ⟨"main.tex"⟩ "\\section %".toList)).entries.map
      (List.filter Entry.isAccepted) = .ok [] := by
  rw [sameOutsideComments_iff, entries_map_filter, entries_map_filter, Except.ok.injEq,
    Except.ok.injEq, Alike]
  decide +kernel

end Buffer
end Sectioning
