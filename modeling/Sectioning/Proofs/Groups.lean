/-
A reader inside a group, character by character and over several lines.

`Cursor.close? k n p cs` is where the group closes for a reader that stands before the
text `cs`.  Line breaks and blank lines are like other characters to it (`close?_newline`).
The reader goes on in steps, each of which takes a piece off the text (`Step`): a
character, an escape, a comment with its line break, or a backslash at the end of a line
together with the first character of the next line that holds more than blanks.

A step leads to the text behind its piece (`Step.close?_text`), and where no step can be
made the group is not closed (`exists_step_of_close?`).  So the text of a closed group is
the text of a row of steps (`close?_eq_some_iff`).
-/
import Sectioning.Proofs.Manuscript
import Sectioning.Proofs.Strays

namespace Sectioning

/-! ## Blank lines -/

namespace Text

/-- What stands before the first line break. -/
def firstLine (cs : List Char) : List Char :=
  (lines cs).headD []

theorem firstLine_eq {cs l : List Char} {ls : List (List Char)} (h : lines cs = l :: ls) :
    firstLine cs = l := by
  rw [firstLine, h]
  rfl

theorem firstLine_append {us : List Char} (hus : '\n' ∉ us) (vs : List Char) :
    firstLine (us ++ vs) = us ++ firstLine vs := by
  obtain ⟨l, ls, hl⟩ := exists_lines_eq_cons vs
  rw [firstLine_eq (lines_append hus hl), firstLine_eq hl]

theorem firstLine_append_newline {us : List Char} (hus : '\n' ∉ us) (vs : List Char) :
    firstLine (us ++ '\n' :: vs) = us :=
  firstLine_eq (lines_append_newline hus vs)

/-- Blank lines, each with its line break. -/
inductive IsBlankLines : List Char → Prop
  | nil : IsBlankLines []
  | line {w bs : List Char} (hbreak : '\n' ∉ w) (hblank : isAllBlank w = true)
      (h : IsBlankLines bs) : IsBlankLines (w ++ '\n' :: bs)

theorem IsBlankLines.isAllBlank {bs : List Char} (h : IsBlankLines bs) : isAllBlank bs = true := by
  induction h with
  | nil => rfl
  | line _ hblank _ ih =>
    rw [Text.isAllBlank] at hblank ih ⊢
    rw [List.all_append, List.all_cons, hblank, ih]
    rfl

theorem notMem_of_isAllBlank {cs : List Char} (h : isAllBlank cs = true) {c : Char}
    (hc : isBlank c = false) : c ∉ cs := fun hmem =>
  ne_of_isBlank (List.all_eq_true.1 h c hmem) hc rfl

/-- A text is blank, or blank lines come first in it and then a line that is not. -/
theorem isAllBlank_or_exists_filled (cs : List Char) :
    isAllBlank cs = true ∨ ∃ bs c ds, cs = bs ++ c :: ds ∧ IsBlankLines bs ∧ c ≠ '\n' ∧
      isAllBlank (c :: firstLine ds) = false := by
  induction hn : cs.length using Nat.strongRecOn generalizing cs with
  | ind n ih =>
    obtain ⟨l, ls, hl⟩ := exists_lines_eq_cons cs
    obtain ⟨hbreak, hcs⟩ := lines_eq_cons hl
    by_cases hblank : isAllBlank l = true
    · -- the first line is blank, so look below it
      rcases hcs with ⟨-, rfl⟩ | ⟨ds, rfl, -⟩
      · exact Or.inl hblank
      · have hlen : ds.length < n := by
          rw [← hn, List.length_append, List.length_cons]
          omega
        rcases ih ds.length hlen ds rfl with hds | ⟨bs, c, es, rfl, hbs, hc, hfilled⟩
        · left
          rw [isAllBlank] at hblank hds ⊢
          rw [List.all_append, List.all_cons, hblank, hds]
          rfl
        · exact Or.inr ⟨l ++ '\n' :: bs, c, es, by simp, .line hbreak hblank hbs, hc, hfilled⟩
    · right
      cases l with
      | nil => exact absurd rfl hblank
      | cons c l =>
        rw [List.mem_cons, not_or] at hbreak
        have hfilled : isAllBlank (c :: l) = false := by simpa using hblank
        rcases hcs with ⟨-, rfl⟩ | ⟨ds, rfl, -⟩
        · refine ⟨[], c, l, rfl, .nil, Ne.symm hbreak.1, ?_⟩
          rwa [firstLine_eq (lines_of_notMem hbreak.2)]
        · refine ⟨[], c, l ++ '\n' :: ds, rfl, .nil, Ne.symm hbreak.1, ?_⟩
          rwa [firstLine_append_newline hbreak.2]

/-- Whether a line is filled does not depend on what stands behind a character that
fills it. -/
theorem isAllBlank_firstLine_append {c d : Char} {us vs : List Char} (hd : d ≠ '\n')
    (hblank : isBlank d = false) (h : isAllBlank (c :: firstLine (us ++ vs)) = false)
    (vs' : List Char) : isAllBlank (c :: firstLine (us ++ d :: vs')) = false := by
  by_cases hus : '\n' ∈ us
  · obtain ⟨w, us', rfl, hw⟩ := List.eq_append_cons_of_mem hus
    rw [List.append_assoc, List.cons_append, firstLine_append_newline hw] at h ⊢
    exact h
  · have hline : firstLine (us ++ d :: vs') = us ++ d :: firstLine vs' := by
      rw [firstLine_append hus, ← List.singleton_append, firstLine_append (by simpa using hd.symm)]
      rfl
    rw [hline, isAllBlank, List.all_cons, List.all_append, List.all_cons, hblank,
      Bool.false_and, Bool.and_false, Bool.and_false]

end Text

namespace Cursor

/-! ## Before a text -/

/-- The cursor before a text that stands at `p`.  Before a line break it is on the next
line that holds more than blanks. -/
def atText? (p : Position) (cs : List Char) : Option Cursor :=
  before? p (Text.firstLine cs) (Text.lines cs).tail

theorem atText?_eq {cs l : List Char} {ls : List (List Char)} (h : Text.lines cs = l :: ls)
    (p : Position) : atText? p cs = before? p l ls := by
  rw [atText?, Text.firstLine_eq h, h]
  rfl

theorem atText?_cons {c : Char} (hc : c ≠ '\n') {cs l : List Char} {ls : List (List Char)}
    (h : Text.lines cs = l :: ls) (p : Position) :
    atText? p (c :: cs) = some (before p c l ls) :=
  atText?_eq (Text.lines_cons hc h) p

theorem exists_atText? {c : Char} (hc : c ≠ '\n') (p : Position) (cs : List Char) :
    ∃ d, atText? p (c :: cs) = some d := by
  obtain ⟨l, ls, hl⟩ := Text.exists_lines_eq_cons cs
  exact ⟨_, atText?_cons hc hl p⟩

theorem atText?_newline (p : Position) (cs : List Char) :
    atText? p ('\n' :: cs) = firstFilled? (p.row + 1) (Text.lines cs) :=
  atText?_eq (Text.lines_newline_cons cs) p

theorem firstFilled?_blank {l : List Char} (h : Text.isAllBlank l = true) (row : Nat)
    (ls : List (List Char)) : firstFilled? row (l :: ls) = firstFilled? (row + 1) ls := by
  cases l with
  | nil => rfl
  | cons c l => rw [firstFilled?, if_pos h]

theorem firstFilled?_filled {c : Char} {l : List Char} (h : Text.isAllBlank (c :: l) = false)
    (row : Nat) (ls : List (List Char)) :
    firstFilled? row ((c :: l) :: ls) = some (before ⟨row, 0⟩ c l ls) := by
  rw [firstFilled?, h, if_neg Bool.false_ne_true]
  rfl

theorem firstFilled?_of_isAllBlank {cs : List Char} (h : Text.isAllBlank cs = true) (row : Nat) :
    firstFilled? row (Text.lines cs) = none := by
  induction hn : cs.length using Nat.strongRecOn generalizing cs row with
  | ind n ih =>
    obtain ⟨l, ls, hl⟩ := Text.exists_lines_eq_cons cs
    rw [hl]
    obtain ⟨-, ⟨rfl, rfl⟩ | ⟨ds, rfl, rfl⟩⟩ := Text.lines_eq_cons hl
    · rw [firstFilled?_blank h]
      rfl
    · rw [Text.isAllBlank, List.all_append, List.all_cons, Bool.and_eq_true,
        Bool.and_eq_true] at h
      have hlen : ds.length < n := by
        rw [← hn, List.length_append, List.length_cons]
        omega
      rw [firstFilled?_blank h.1, ih ds.length hlen h.2.2 (row + 1) rfl]

/-- Below a line end stands the first character of the next filled line. -/
theorem firstFilled?_blankLines {bs : List Char} (hbs : Text.IsBlankLines bs) {c : Char}
    (hc : c ≠ '\n') {cs l : List Char} {ls : List (List Char)} (hl : Text.lines cs = l :: ls)
    (hfilled : Text.isAllBlank (c :: l) = false) (row : Nat) :
    firstFilled? row (Text.lines (bs ++ c :: cs)) =
      some (before (Position.afterAll ⟨row, 0⟩ bs) c l ls) := by
  induction hbs generalizing row with
  | nil =>
    rw [List.nil_append, Text.lines_cons hc hl, firstFilled?_filled hfilled]
    rfl
  | line hbreak hblank _ ih =>
    rw [List.append_assoc, List.cons_append, Text.lines_append_newline hbreak,
      firstFilled?_blank hblank, ih, Position.afterAll_append,
      Position.afterAll_of_notMem hbreak, Position.afterAll_cons, Position.after_newline]

theorem On.eq_atText? {b : Buffer} {c : Cursor} {ch : Char} {us vs : List Char} (hc : c.On b)
    (hs : b.Splits c.position us (ch :: vs)) (hch : ch ≠ '\n') :
    some c = atText? c.position (ch :: vs) := by
  obtain ⟨l, ls, hl⟩ := Text.exists_lines_eq_cons vs
  rw [atText?_cons hch hl, ← hs.cursorAt? hch hl]
  exact (Buffer.cursorAt?_eq_some_iff.2 ⟨rfl, hc⟩).symm

/-! ## Blanks -/

/-- A reader that passes the blanks of a line passes line breaks too. -/
theorem bind_atText?_newline {α : Type} {f : Cursor → Option α}
    (hf : ∀ p c cs, isBlank c = true → c ≠ '\n' →
      (atText? p (c :: cs)).bind f = (atText? (p.after c) cs).bind f)
    (p : Position) (cs : List Char) :
    (atText? p ('\n' :: cs)).bind f = (atText? (p.after '\n') cs).bind f := by
  have hline : ∀ {w : List Char}, Text.isAllBlank w = true → '\n' ∉ w → ∀ q ds,
      (atText? q (w ++ ds)).bind f = (atText? (q.afterAll w) ds).bind f := by
    intro w hw hbreak
    induction w with
    | nil => intro q ds; rfl
    | cons c w ih =>
      intro q ds
      rw [List.mem_cons, not_or] at hbreak
      rw [Text.isAllBlank, List.all_cons, Bool.and_eq_true] at hw
      rw [List.cons_append, hf q c _ hw.1 (Ne.symm hbreak.1), ih hw.2 hbreak.2,
        Position.afterAll_cons]
  obtain ⟨l, ls, hl⟩ := Text.exists_lines_eq_cons cs
  rw [atText?_newline, hl, Position.after_newline]
  by_cases hblank : Text.isAllBlank l = true
  · -- a blank line is jumped over on the left and passed on the right
    rw [firstFilled?_blank hblank]
    obtain ⟨hbreak, ⟨rfl, rfl⟩ | ⟨ds, rfl, rfl⟩⟩ := Text.lines_eq_cons hl
    · have hright := hline hblank hbreak ⟨p.row + 1, 0⟩ []
      rw [List.append_nil] at hright
      rw [hright]
      rfl
    · rw [hline hblank hbreak, atText?_newline, Position.afterAll_of_notMem hbreak]
  · cases l with
    | nil => exact absurd rfl hblank
    | cons c l =>
      rw [firstFilled?_filled (by simpa using hblank), atText?_eq hl]
      rfl

/-! ## Where a group closes -/

/-- Where the group around a text at `p` closes, with `n` further groups of the kind open. -/
def close? (k : Delimiter) (n : Nat) (p : Position) (cs : List Char) : Option Cursor :=
  (atText? p cs).bind (matchClose? k n)

variable {k : Delimiter} {n : Nat} {p : Position} {c : Char} {cs : List Char}

theorem close?_close : close? k 0 p (k.closer :: cs) = atText? p (k.closer :: cs) := by
  obtain ⟨l, ls, hl⟩ := Text.exists_lines_eq_cons cs
  rw [close?, atText?_cons k.closer_ne_newline hl, Option.bind_some, matchClose?_close]

theorem close?_of_ne_newline (hn : c ≠ '\n') (hesc : c ≠ '\\') (hcom : c ≠ '%')
    (hclose : ¬ (c = k.closer ∧ n = 0)) :
    close? k n p (c :: cs) = close? k (k.depthAfter (.first c) n) (p.after c) cs := by
  obtain ⟨l, ls, hl⟩ := Text.exists_lines_eq_cons cs
  rw [close?, close?, atText?_cons hn hl, Option.bind_some, matchClose?_char hesc hcom hclose,
    atText?_eq hl, Position.after_of_ne p hn]

theorem close?_blank (hc : isBlank c = true) (hn : c ≠ '\n') :
    close? k n p (c :: cs) = close? k n (p.after c) cs := by
  obtain ⟨hcloser, hopener⟩ := k.ne_of_isBlank hc
  rw [close?_of_ne_newline hn (ne_of_isBlank hc rfl) (ne_of_isBlank hc rfl)
    (fun h => hcloser h.1), Delimiter.depthAfter_of_ne hcloser hopener]

/-- A line break is passed like any other character. -/
theorem close?_newline : close? k n p ('\n' :: cs) = close? k n (p.after '\n') cs :=
  bind_atText?_newline (fun _ _ _ hc hn => close?_blank hc hn) p cs

/-- A character other than a backslash and a percent sign is passed. -/
theorem close?_char (hesc : c ≠ '\\') (hcom : c ≠ '%') (hclose : ¬ (c = k.closer ∧ n = 0)) :
    close? k n p (c :: cs) = close? k (k.depthAfter (.first c) n) (p.after c) cs := by
  by_cases hn : c = '\n'
  · subst hn
    obtain ⟨hcloser, hopener⟩ := k.ne_of_isBlank (show isBlank '\n' = true from rfl)
    rw [close?_newline, Delimiter.depthAfter_of_ne hcloser hopener]
  · exact close?_of_ne_newline hn hesc hcom hclose

theorem close?_escape (hc : c ≠ '\n') :
    close? k n p ('\\' :: c :: cs) = close? k n (p.afterAll ['\\', c]) cs := by
  obtain ⟨l, ls, hl⟩ := Text.exists_lines_eq_cons cs
  rw [close?, close?, atText?_cons (by decide) (Text.lines_cons hc hl), Option.bind_some,
    matchClose?_escape, atText?_eq hl, Position.afterAll_cons, Position.afterAll_singleton,
    Position.after_of_ne p (by decide), Position.after_of_ne _ hc]
  rfl

/-- A reader on a percent sign goes on below the line. -/
theorem matchClose?_comment (l : List Char) (ls : List (List Char)) :
    matchClose? k n (before p '%' l ls) =
      (firstFilled? (p.row + 1) ls).bind (matchClose? k n) := by
  have hclose : ¬ ((before p '%' l ls).octet = .first k.closer ∧ n = 0) := by
    cases k <;> simp [before, Delimiter.closer]
  have hdepth : k.depthAfter (before p '%' l ls).octet n = n := by
    cases k <;> rfl
  rw [matchClose?_eq, if_neg hclose, hdepth]
  rfl

/-- Behind a comment begins the next line. -/
theorem afterAll_comment {w : List Char} (hw : '\n' ∉ w) :
    p.afterAll ('%' :: (w ++ ['\n'])) = p.after '\n' := by
  rw [Position.afterAll_cons, Position.afterAll_append, Position.after_of_ne p (by decide),
    Position.afterAll_of_notMem hw, Position.afterAll_singleton, Position.after_newline,
    Position.after_newline]

theorem close?_comment {w : List Char} (hw : '\n' ∉ w) :
    close? k n p ('%' :: (w ++ '\n' :: cs)) =
      close? k n (p.afterAll ('%' :: (w ++ ['\n']))) cs := by
  rw [afterAll_comment hw, ← close?_newline, close?,
    atText?_cons (by decide) (Text.lines_append_newline hw cs), Option.bind_some,
    matchClose?_comment, close?, atText?_newline]

theorem close?_comment_end {w : List Char} (hw : '\n' ∉ w) : close? k n p ('%' :: w) = none := by
  rw [close?, atText?_cons (by decide) (Text.lines_of_notMem hw), Option.bind_some,
    matchClose?_comment]
  rfl

/-- A reader on a backslash that ends its line goes on behind the first octet of the next
filled line. -/
theorem matchClose?_carry (ls : List (List Char)) :
    matchClose? k n (before p '\\' [] ls) =
      (firstFilled? (p.row + 1) ls).bind fun d => d.advance?.bind (matchClose? k n) := by
  have hclose : ¬ ((before p '\\' [] ls).octet = .first k.closer ∧ n = 0) := by
    cases k <;> simp [before, Delimiter.closer]
  have hdepth : k.depthAfter (before p '\\' [] ls).octet n = n := by
    cases k <;> rfl
  have honward : (before p '\\' [] ls).onward? =
      (firstFilled? (p.row + 1) ls).bind advance? := by
    rw [onward?, if_pos (show (before p '\\' [] ls).octet = .first '\\' from rfl)]
    rfl
  rw [matchClose?_eq, if_neg hclose, hdepth, honward, Option.bind_assoc]

theorem close?_backslash : close? k n p ('\\' :: '\n' :: cs) =
    (firstFilled? (p.row + 1) (Text.lines cs)).bind
      fun d => d.advance?.bind (matchClose? k n) := by
  rw [close?, atText?_cons (by decide) (Text.lines_newline_cons cs), Option.bind_some,
    matchClose?_carry]

theorem close?_carry {bs : List Char} (hbs : Text.IsBlankLines bs) (hc : c ≠ '\n')
    (hfilled : Text.isAllBlank (c :: Text.firstLine cs) = false) :
    close? k n p ('\\' :: '\n' :: (bs ++ c :: cs)) =
      close? k n (p.afterAll ('\\' :: '\n' :: (bs ++ [c]))) cs := by
  obtain ⟨l, ls, hl⟩ := Text.exists_lines_eq_cons cs
  rw [Text.firstLine_eq hl] at hfilled
  generalize hq : Position.afterAll ⟨p.row + 1, 0⟩ bs = q
  have hplace : p.afterAll ('\\' :: '\n' :: (bs ++ [c])) = ⟨q.row, q.column + c.utf8Size⟩ := by
    rw [Position.afterAll_cons, Position.afterAll_cons, Position.after_of_ne p (by decide),
      Position.after_newline, Position.afterAll_append, hq, Position.afterAll_singleton,
      Position.after_of_ne q hc]
  have hpos := c.utf8Size_pos
  have hlater := @bind_matchClose?_later (before q c l ls) k n (c.utf8Size - 1)
    (Text.octets l) rfl
  rw [Nat.sub_add_cancel hpos, advanceBy?_before] at hlater
  rw [close?_backslash, firstFilled?_blankLines hbs hc hl hfilled, Option.bind_some, hq, hlater,
    close?, atText?_eq hl, hplace]

theorem close?_carry_end (h : Text.isAllBlank cs = true) :
    close? k n p ('\\' :: '\n' :: cs) = none := by
  rw [close?_backslash, firstFilled?_of_isAllBlank h, Option.bind_none]

theorem close?_backslash_end : close? k n p ['\\'] = none := by
  rw [close?, atText?_cons (by decide) (Text.lines_of_notMem List.not_mem_nil), Option.bind_some,
    matchClose?_carry]
  rfl

end Cursor

/-! ## Steps -/

/-- A piece of text that a reader inside a group takes at once. -/
inductive Step where
  | char (c : Char) (hesc : c ≠ '\\') (hcom : c ≠ '%')
  /-- A backslash and the character after it on its line. -/
  | escape (c : Char) (hbreak : c ≠ '\n')
  /-- A comment with the line break that ends it. -/
  | comment (w : List Char) (hbreak : '\n' ∉ w)
  /-- A backslash at the end of a line, the blank lines below it, and the character that
  comes after them. -/
  | carry (bs : List Char) (hbs : Text.IsBlankLines bs) (c : Char) (hbreak : c ≠ '\n')

namespace Step

def text : Step → List Char
  | char c _ _ => [c]
  | escape c _ => ['\\', c]
  | comment w _ => '%' :: (w ++ ['\n'])
  | carry bs _ c _ => '\\' :: '\n' :: (bs ++ [c])

def texts (ss : List Step) : List Char :=
  ss.flatMap text

/-- The number of open groups after a step. -/
def depthAfter (k : Delimiter) (n : Nat) : Step → Nat
  | char c _ _ => k.depthAfter (.first c) n
  | escape _ _ => n
  | comment _ _ => n
  | carry _ _ _ _ => n

def depthAfterAll (k : Delimiter) (n : Nat) (ss : List Step) : Nat :=
  ss.foldl (depthAfter k) n

/-- Whether a step inside a group is possible where `rest` comes after it.  The delimiter
that closes the group is no step, and a backslash carries on to a filled line. -/
def Goes (k : Delimiter) (n : Nat) (rest : List Char) : Step → Prop
  | char c _ _ => ¬ (c = k.closer ∧ n = 0)
  | escape _ _ => True
  | comment _ _ => True
  | carry _ _ c _ => Text.isAllBlank (c :: Text.firstLine rest) = false

/-- Whether a reader inside a group takes the steps `ss` one after the other and comes to
`rest`. -/
def Passes (k : Delimiter) (rest : List Char) : Nat → List Step → Prop
  | _, [] => True
  | n, s :: ss => s.Goes k n (texts ss ++ rest) ∧ Passes k rest (s.depthAfter k n) ss

instance (k : Delimiter) (n : Nat) (rest : List Char) : (s : Step) → Decidable (s.Goes k n rest)
  | char c _ _ => inferInstanceAs (Decidable (¬ (c = k.closer ∧ n = 0)))
  | escape _ _ => inferInstanceAs (Decidable True)
  | comment _ _ => inferInstanceAs (Decidable True)
  | carry _ _ c _ => inferInstanceAs (Decidable (Text.isAllBlank (c :: Text.firstLine rest) = false))

instance decidablePasses (k : Delimiter) (rest : List Char) :
    (n : Nat) → (ss : List Step) → Decidable (Passes k rest n ss)
  | _, [] => inferInstanceAs (Decidable True)
  | n, s :: ss =>
    have := decidablePasses k rest (s.depthAfter k n) ss
    inferInstanceAs (Decidable (_ ∧ _))

variable {k : Delimiter} {n : Nat} {p : Position} {s : Step} {ss ss' : List Step}
  {cs rest : List Char}

theorem texts_cons (s : Step) (ss : List Step) : texts (s :: ss) = s.text ++ texts ss := rfl

theorem texts_append (ss ss' : List Step) : texts (ss ++ ss') = texts ss ++ texts ss' :=
  List.flatMap_append

theorem depthAfterAll_append (k : Delimiter) (n : Nat) (ss ss' : List Step) :
    depthAfterAll k n (ss ++ ss') = depthAfterAll k (depthAfterAll k n ss) ss' :=
  List.foldl_append

theorem passes_append : Passes k rest n (ss ++ ss') ↔
    Passes k (texts ss' ++ rest) n ss ∧ Passes k rest (depthAfterAll k n ss) ss' := by
  induction ss generalizing n with
  | nil => simp [Passes, depthAfterAll]
  | cons s ss ih =>
    rw [List.cons_append, Passes, Passes, ih, texts_append, List.append_assoc, and_assoc]
    rfl

/-- A step leads to the text behind its piece. -/
theorem close?_text (h : s.Goes k n cs) :
    Cursor.close? k n p (s.text ++ cs) =
      Cursor.close? k (s.depthAfter k n) (p.afterAll s.text) cs := by
  cases s with
  | char c hesc hcom => exact Cursor.close?_char hesc hcom h
  | escape c hbreak => exact Cursor.close?_escape hbreak
  | comment w hbreak =>
    rw [text, List.cons_append, List.append_assoc]
    exact Cursor.close?_comment hbreak
  | carry bs hbs c hbreak =>
    rw [text, List.cons_append, List.cons_append, List.append_assoc]
    exact Cursor.close?_carry hbs hbreak h

theorem Passes.close? (h : Passes k rest n ss) :
    Cursor.close? k n p (texts ss ++ rest) =
      Cursor.close? k (depthAfterAll k n ss) (p.afterAll (texts ss)) rest := by
  induction ss generalizing n p with
  | nil => rfl
  | cons s ss ih =>
    rw [texts_cons, List.append_assoc, close?_text h.1, ih h.2, Position.afterAll_append]
    rfl

/-- A reader that finds the end of its group stands before it or before a step. -/
theorem exists_step_of_close? {d : Cursor} (h : Cursor.close? k n p cs = some d) :
    (n = 0 ∧ ∃ cs', cs = k.closer :: cs') ∨
      ∃ (s : Step) (cs' : List Char), cs = s.text ++ cs' ∧ s.Goes k n cs' := by
  cases cs with
  | nil => cases h
  | cons c cs =>
    by_cases hclose : c = k.closer ∧ n = 0
    · exact Or.inl ⟨hclose.2, cs, by rw [hclose.1]⟩
    · right
      by_cases hesc : c = '\\'
      · subst hesc
        cases cs with
        | nil =>
          rw [Cursor.close?_backslash_end] at h
          cases h
        | cons d cs =>
          by_cases hbreak : d = '\n'
          · subst hbreak
            rcases Text.isAllBlank_or_exists_filled cs with
              hblank | ⟨bs, e, es, rfl, hbs, he, hfilled⟩
            · rw [Cursor.close?_carry_end hblank] at h
              cases h
            · exact ⟨.carry bs hbs e he, es, by simp [text], hfilled⟩
          · exact ⟨.escape d hbreak, cs, rfl, trivial⟩
      · by_cases hcom : c = '%'
        · subst hcom
          by_cases hbreak : '\n' ∈ cs
          · obtain ⟨w, cs', rfl, hw⟩ := List.eq_append_cons_of_mem hbreak
            exact ⟨.comment w hw, cs', by simp [text], trivial⟩
          · rw [Cursor.close?_comment_end hbreak] at h
            cases h
        · exact ⟨.char c hesc hcom, cs, rfl, hclose⟩

theorem text_ne_nil (s : Step) : s.text ≠ [] := by
  cases s <;> exact List.cons_ne_nil _ _

/-- The row of steps to the end of a group. -/
theorem exists_passes_of_close? {d : Cursor} (h : Cursor.close? k n p cs = some d) :
    ∃ ss rest, cs = texts ss ++ k.closer :: rest ∧ Passes k (k.closer :: rest) n ss ∧
      depthAfterAll k n ss = 0 := by
  induction hn : cs.length using Nat.strongRecOn generalizing n p cs with
  | ind m ih =>
    rcases exists_step_of_close? h with ⟨rfl, cs', rfl⟩ | ⟨s, cs', rfl, hs⟩
    · exact ⟨[], cs', rfl, trivial, rfl⟩
    · have hlen : cs'.length < m := by
        have hpos := List.length_pos_of_ne_nil s.text_ne_nil
        rw [← hn, List.length_append]
        omega
      rw [close?_text hs] at h
      obtain ⟨ss, rest, rfl, hss, hdepth⟩ := ih cs'.length hlen h rfl
      exact ⟨s :: ss, rest, by rw [texts_cons, List.append_assoc], ⟨hs, hss⟩, hdepth⟩

/-- A group closes behind the steps that a reader takes in it. -/
theorem close?_eq_some_iff {d : Cursor} : Cursor.close? k n p cs = some d ↔
    ∃ ss rest, cs = texts ss ++ k.closer :: rest ∧ Passes k (k.closer :: rest) n ss ∧
      depthAfterAll k n ss = 0 ∧
      Cursor.atText? (p.afterAll (texts ss)) (k.closer :: rest) = some d := by
  constructor
  · intro h
    obtain ⟨ss, rest, rfl, hss, hdepth⟩ := exists_passes_of_close? h
    rw [hss.close?, hdepth, Cursor.close?_close] at h
    exact ⟨ss, rest, rfl, hss, hdepth, h⟩
  · rintro ⟨ss, rest, rfl, hss, hdepth, h⟩
    rw [hss.close?, hdepth, Cursor.close?_close, h]

end Step
end Sectioning
