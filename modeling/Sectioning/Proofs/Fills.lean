/-
Titles in the comments of loose commands.

Scanning takes the last opening brace that it can reach for the delimiter of a
command.  If the comments after a loose command are filled with a title in braces,
that brace is one of theirs (`exists_ending?_refill`), and the command has that
title (`exists_reading_of_isLoose`).
-/
import Sectioning.Proofs.Exposure
import Sectioning.Proofs.Printed

namespace Sectioning
namespace Occurrence

/-! ## Delimiters in the comments of a gap -/

/-- A comment that is a title of one letter. -/
def titleFill (x : Char) : List Char :=
  ['{', x, '}']

theorem titleFill_append {x : Char} (hx : x ≠ '{') {us vs ws : List Char}
    (h : titleFill x ++ ws = us ++ '{' :: vs) :
    (∃ vs', vs = x :: '}' :: vs') ∨ ∃ us', ws = us' ++ '{' :: vs := by
  change '{' :: x :: '}' :: ws = us ++ '{' :: vs at h
  rcases List.cons_eq_append_iff.1 h with ⟨-, h⟩ | ⟨us₁, -, h⟩
  · exact Or.inl ⟨ws, (List.cons.inj h).2⟩
  · rcases List.cons_eq_append_iff.1 h with ⟨-, h⟩ | ⟨us₂, -, h⟩
    · exact absurd (List.cons.inj h).1.symm hx
    · rcases List.cons_eq_append_iff.1 h with ⟨-, h⟩ | ⟨us₃, -, h⟩
      · exact absurd (List.cons.inj h).1 (by decide)
      · exact Or.inr ⟨us₃, h⟩

theorem mem_refill_comment {w us : List Char} {c : Char} (hc : c ∈ w) :
    c ∈ Text.refill w .comment us := by
  induction us with
  | nil =>
    rw [Text.refill_comment w List.not_mem_nil]
    exact hc
  | cons u us ih =>
    by_cases hu : u = '\n'
    · subst hu
      rw [Text.refill_comment_newline]
      exact List.mem_append_left _ hc
    · rw [Text.refill_comment_cons w hu]
      exact ih

/-- What the comments of a gap are filled with stands in it, if it has a comment. -/
theorem mem_refill_covered {w cs : List Char} {c : Char} (hc : c ∈ w)
    (h : '%' ∈ covered false cs) : c ∈ Text.refill w .plain (covered false cs) := by
  induction cs with
  | nil => cases h
  | cons d ds ih =>
    by_cases hd : goesOn false d = true
    · rw [covered_cons hd] at h ⊢
      rw [Text.refill_cons w (by simp)]
      refine List.mem_cons_of_mem d ?_
      have hnext : Mark.plain.next d = gapMark (commentAfter false d) := gapMark_next hd
      rw [hnext]
      by_cases hcom : d = '%'
      · subst hcom
        exact mem_refill_comment hc
      · have hafter : commentAfter false d = false := by simp [commentAfter, hcom]
        rw [hafter] at h ⊢
        rw [List.mem_cons] at h
        exact ih (h.resolve_left (Ne.symm hcom))
    · rw [covered_stop hd] at h
      cases h

/-- Every opening brace in the comments of a gap opens a title of one letter. -/
theorem brace_in_refill_covered {x : Char} (hx : x ≠ '{') {inComment : Bool} {cs us vs : List Char}
    (h : Text.refill (titleFill x) (gapMark inComment) (covered inComment cs) = us ++ '{' :: vs) :
    ∃ vs', vs = x :: '}' :: vs' := by
  induction cs generalizing inComment us with
  | nil =>
    cases inComment with
    | true =>
      have hfill : titleFill x ++ [] = us ++ '{' :: vs := by
        rw [← h, List.append_nil]
        exact (Text.refill_comment _ List.not_mem_nil).symm
      rcases titleFill_append hx hfill with hvs | ⟨us', hus'⟩
      · exact hvs
      · simp at hus'
    | false =>
      change [] = us ++ '{' :: vs at h
      simp at h
  | cons c cs ih =>
    cases inComment with
    | true =>
      rw [covered_cons rfl] at h
      by_cases hc : c = '\n'
      · subst hc
        change Text.refill _ .comment ('\n' :: covered false cs) = _ at h
        rw [Text.refill_comment_newline] at h
        rcases titleFill_append hx h with hvs | ⟨us', hus'⟩
        · exact hvs
        · rcases List.cons_eq_append_iff.1 hus' with ⟨-, hbad⟩ | ⟨us'', -, hrest⟩
          · exact absurd (List.cons.inj hbad).1 (by decide)
          · exact @ih false us'' hrest
      · have hafter : commentAfter true c = true := by simp [commentAfter, hc]
        rw [hafter] at h
        change Text.refill _ .comment (c :: covered true cs) = _ at h
        rw [Text.refill_comment_cons _ hc] at h
        exact @ih true us h
    | false =>
      by_cases hc : goesOn false c = true
      · rw [covered_cons hc, Text.refill_cons _ (by decide), gapMark_next hc] at h
        rcases List.cons_eq_append_iff.1 h with ⟨-, hbad⟩ | ⟨us', -, hrest⟩
        · rw [← (List.cons.inj hbad).1] at hc
          exact absurd hc (by decide)
        · exact ih hrest
      · rw [covered_stop hc] at h
        change [] = us ++ '{' :: vs at h
        simp at h

theorem newline_notMem_titleFill {x : Char} (hx : x ≠ '\n') : '\n' ∉ titleFill x := by
  simp [titleFill, Ne.symm hx]

/-- A gap with a comment that no opening brace follows ends in its last comment. -/
theorem exists_gapTo?_refill {x : Char} (hx : x ≠ '{') (hbreak : x ≠ '\n') {cs : List Char}
    (hcom : '%' ∈ covered false cs) (hhead : (behind false cs).head? ≠ some '{') :
    ∃ lead more, gapTo? '{' (Text.refill (titleFill x) .plain cs) = some (lead ++ ['{']) ∧
      Text.refill (titleFill x) .plain cs = lead ++ '{' :: x :: '}' :: more := by
  have hw := newline_notMem_titleFill hbreak
  have hcovered := covered_refill hw cs
  have hbehind := behind_refill hw cs
  have hmem : '{' ∈ Text.refill (titleFill x) .plain (covered false cs) :=
    mem_refill_covered List.mem_cons_self hcom
  have htake : '{' ∉ (Text.refill (titleFill x) .plain (behind false cs)).take 1 := by
    intro htake
    have hhead' := head?_refill (titleFill x) (behind false cs)
    cases hds : Text.refill (titleFill x) .plain (behind false cs) with
    | nil =>
      rw [hds] at htake
      cases htake
    | cons d ds =>
      rw [hds, List.head?_cons] at hhead'
      rw [hds, List.take_succ_cons, List.take_zero, List.mem_singleton] at htake
      exact hhead (by rw [← hhead', htake])
  rw [gapTo?_eq, hcovered, hbehind]
  cases hlast : upToLast? '{' (Text.refill (titleFill x) .plain (covered false cs) ++
      (Text.refill (titleFill x) .plain (behind false cs)).take 1) with
  | none =>
    rw [upToLast?_eq_none_iff] at hlast
    exact absurd (List.mem_append_left _ hmem) hlast
  | some part =>
    obtain ⟨lead, vs, hsplit, -, rfl⟩ := exists_of_upToLast? hlast
    -- the last brace is one in a comment, since none follows the gap
    have hinside : ∃ vs', Text.refill (titleFill x) .plain (covered false cs) =
        lead ++ '{' :: vs' := by
      rcases List.append_eq_append_iff.1 hsplit with ⟨as, hlead, has⟩ | ⟨bs, hcov, hbs⟩
      · refine absurd ?_ htake
        rw [has]
        simp
      · cases bs with
        | nil =>
          refine absurd ?_ htake
          rw [List.nil_append] at hbs
          rw [← hbs]
          exact List.mem_cons_self
        | cons y ys =>
          rw [List.cons_append, List.cons.injEq] at hbs
          exact ⟨ys, by rw [hcov, hbs.1]⟩
    obtain ⟨vs', hvs'⟩ := hinside
    obtain ⟨more, rfl⟩ := @brace_in_refill_covered x hx false cs lead vs' hvs'
    refine ⟨lead, more ++ Text.refill (titleFill x) .plain (behind false cs), rfl, ?_⟩
    rw [← covered_append_behind false (Text.refill (titleFill x) .plain cs), hcovered, hbehind,
      hvs']
    simp

/-- A comment of a loose command that is filled with a title becomes its
argument. -/
theorem exists_ending?_refill {x : Char} (hx : x ≠ '{') (hbreak : x ≠ '\n') {cs : List Char}
    (hloose : isLoose cs = true) :
    ∃ lead more, ending? (Text.refill (titleFill x) .plain cs) = some (lead ++ ['{']) ∧
      Text.refill (titleFill x) .plain cs = lead ++ '{' :: x :: '}' :: more := by
  have hw := newline_notMem_titleFill hbreak
  have hhead := head?_refill (titleFill x) (behind false cs)
  rw [← behind_refill hw] at hhead
  unfold isLoose at hloose
  split at hloose
  · cases hloose
  · next hbrace =>
    split at hloose
    · next hstar =>
      rw [Bool.and_eq_true, Bool.or_eq_true, bne_iff_ne, List.elem_iff, List.elem_iff] at hloose
      obtain ⟨hbrace', hcom⟩ := hloose
      have htail : behind false (Text.refill (titleFill x) .plain cs) =
          '*' :: Text.refill (titleFill x) .plain (behind false cs).tail := by
        rw [← tail_refill _ hstar, ← behind_refill hw]
        exact cons_tail_of_head? (hhead.trans hstar)
      by_cases hcom' : '%' ∈ covered false (behind false cs).tail
      · obtain ⟨lead, more, hlead, hmore⟩ := exists_gapTo?_refill hx hbreak hcom' hbrace'
        refine ⟨covered false (Text.refill (titleFill x) .plain cs) ++ '*' :: lead, more, ?_, ?_⟩
        · rw [ending?_eq, starredGap?_star htail, hlead]
          simp
        · calc Text.refill (titleFill x) .plain cs
              = covered false (Text.refill (titleFill x) .plain cs) ++
                  behind false (Text.refill (titleFill x) .plain cs) :=
                (covered_append_behind false _).symm
            _ = covered false (Text.refill (titleFill x) .plain cs) ++ '*' :: lead ++
                  '{' :: x :: '}' :: more := by
                rw [htail, hmore]
                simp
      · have hnone :
            gapTo? '{' (Text.refill (titleFill x) .plain (behind false cs).tail) = none := by
          refine gapTo?_eq_none (by decide) ?_ ?_
          · rw [covered_refill hw, Text.percent_mem_refill _ (by simp)]
            exact hcom'
          · rw [behind_refill hw, head?_refill]
            exact hbrace'
        obtain ⟨lead, more, hlead, hmore⟩ :=
          exists_gapTo?_refill hx hbreak (hcom.resolve_right hcom') hbrace
        refine ⟨lead, more, ?_, hmore⟩
        rw [ending?_eq, starredGap?_star htail, hnone, hlead]
        rfl
    · next hstar =>
      rw [List.elem_iff] at hloose
      obtain ⟨lead, more, hlead, hmore⟩ := exists_gapTo?_refill hx hbreak hloose hbrace
      refine ⟨lead, more, ?_, hmore⟩
      have hnostar : starredGap? (Text.refill (titleFill x) .plain cs) = none := by
        refine starredGap?_of_ne fun vs hvs => hstar ?_
        rw [← hhead, hvs]
        rfl
      rw [ending?_eq, hnostar, hlead]
      rfl

theorem refill_name (w : List Char) (k : Keyword) (rest : List Char) :
    Text.refill w .plain ('\\' :: (k.name.toList ++ rest)) =
      '\\' :: (k.name.toList ++ Text.refill w .plain rest) := by
  have hover : Mark.plain.after ('\\' :: k.name.toList) ≠ .comment := by
    rw [after_name]
    simp
  rw [← List.cons_append, Text.refill_append w hover, after_name,
    Text.refill_of_after_ne w (newline_notMem_name k) hover, List.cons_append]

/-- A reader on the brace of a title of one letter reads that title. -/
theorem reading_of_titleFill {b : Buffer} {o : Occurrence} {q : Position} {us vs : List Char}
    {x : Char} (hx : x.isAlphanum = true) (hgenuine : o.isGenuine b = true)
    (hs : b.Splits q us (titleFill x ++ vs)) {c : Cursor} (hc : b.cursorAt? q = some c)
    (hpass : (b.cursorAt? o.delimiter).bind
      (fun c => c.skipBlank?.bind Cursor.passShortTitle?) = some c) :
    o.reading b = o.entryOf b.id [x] := by
  have hbreak := Manuscript.ne_of_isAlphanum hx (show Char.isAlphanum '\n' = false by decide)
  have hescape : Manuscript.escape (Manuscript.TitleText.single x hx).chars = [x] :=
    Manuscript.escape_of_notMem (Manuscript.notMem_singleton_of_isAlphanum hx (by decide))
  obtain ⟨l, ls, hl⟩ := Text.exists_lines_eq_cons vs
  have hlines : Text.lines (x :: '}' :: vs) = (x :: '}' :: l) :: ls :=
    Text.lines_cons hbreak (Text.lines_cons (by decide) hl)
  have hs' : b.Splits q us ('{' :: x :: '}' :: vs) := hs
  have hstart := hs'.step
  rw [Position.after_of_ne _ (by decide), show Char.utf8Size '{' = 1 from rfl] at hstart
  rw [hs'.cursorAt? (by decide) hlines, Option.some.injEq] at hc
  refine @Manuscript.reading_of_title b o q (us ++ ['{']) vs l ls
    (Manuscript.TitleText.single x hx) hgenuine ?_ ?_
  · rw [hescape]
    exact hstart
  · rw [hpass, ← hc, hescape]
    rfl

/-- A loose command whose comments are filled with a title of one letter has that
title. -/
theorem exists_reading_of_isLoose {b : Buffer} {p : Position} {us rest : List Char} {k : Keyword}
    (hs : b.Splits p us ('\\' :: (k.name.toList ++ rest))) (hgenuine : b.isGenuine p = true)
    (hloose : isLoose rest = true) {x : Char} (hx : x.isAlphanum = true) :
    ∃ o : Occurrence, o.At (b.refill (titleFill x)) ∧ o.range.start = p ∧
      o.reading (b.refill (titleFill x)) = o.entryOf b.id [x] := by
  have hbreak := Manuscript.ne_of_isAlphanum hx (show Char.isAlphanum '\n' = false by decide)
  have hbrace := Manuscript.ne_of_isAlphanum hx (show Char.isAlphanum '{' = false by decide)
  have hw := newline_notMem_titleFill hbreak
  have hplain := hs.isGenuine_iff.1 hgenuine
  have hgenuine' := (b.alike_refill hw).isGenuine hs hgenuine
  have hs' := hs.refill hw (by rw [hplain]; simp)
  rw [hplain, refill_name] at hs'
  obtain ⟨lead, more, hending, hrest⟩ := exists_ending?_refill hbrace hbreak hloose
  have hform := formAt?_command k (Text.refill (titleFill x) .plain rest)
  rw [hending, Option.map_some] at hform
  have hsplit : '\\' :: (k.name.toList ++ (lead ++ ['{'])) =
      '\\' :: k.name.toList ++ lead ++ ['{'] := by simp
  rw [hsplit] at hform
  have hreported : isReported k ('\\' :: k.name.toList ++ lead ++ ['{']) = true := by
    rw [isReported, List.getLast?_concat]
    simp
  refine ⟨⟨k, ⟨p, p.afterAll ('\\' :: k.name.toList ++ lead ++ ['{'])⟩⟩,
    ⟨_, _, _, hs', hform, hreported, rfl⟩, rfl, ?_⟩
  have hdelimiter := @delimiter_eq ⟨k, ⟨p, p.afterAll ('\\' :: k.name.toList ++ lead ++ ['{'])⟩⟩
    ('\\' :: k.name.toList ++ lead) '{' rfl (by decide) rfl
  have hat : (b.refill (titleFill x)).Splits (p.afterAll ('\\' :: k.name.toList ++ lead))
      (Text.refill (titleFill x) .plain us ++ ('\\' :: k.name.toList ++ lead))
      (titleFill x ++ more) := by
    refine Buffer.Splits.steps ?_
    have htext : '\\' :: k.name.toList ++ lead ++ (titleFill x ++ more) =
        '\\' :: (k.name.toList ++ Text.refill (titleFill x) .plain rest) := by
      rw [hrest]
      simp [titleFill]
    rw [htext]
    exact hs'
  obtain ⟨l, ls, hl⟩ := Text.exists_lines_eq_cons (x :: '}' :: more)
  have hc := Buffer.Splits.cursorAt? hat (by decide) hl
  refine reading_of_titleFill hx hgenuine' hat hc ?_
  rw [hdelimiter, hc]
  rw [Option.bind_some, Manuscript.skipBlank?_before (by decide) (by decide)]
  rfl

end Occurrence
end Sectioning
