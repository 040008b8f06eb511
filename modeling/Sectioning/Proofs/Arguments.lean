/-
The argument of a command as a piece of its text.

A reader on an opening brace reads the argument exactly if a row of steps leads to the
brace that closes the group (`isSome_bracedRange?`).  What it hands out is the text of the
steps, without the blank lines that come first if the brace ends its line
(`Splits.exists_steps`).  The readings of a text are the texts that can be handed out as
the argument of a command (`Step.Reads.isArgument`, `Occurrence.exists_reads`).
-/
import Sectioning.Proofs.Endings
import Sectioning.Proofs.Groups
import Sectioning.Proofs.Printed

namespace Sectioning
namespace Cursor

variable {p : Position} {c d : Cursor} {ch : Char} {cs l : List Char} {ls : List (List Char)}

/-- One octet behind a character of one byte stands the text after it. -/
theorem advance?_before (hch : ch ≠ '\n') (hsize : ch.utf8Size = 1)
    (hl : Text.lines cs = l :: ls) (p : Position) :
    (before p ch l ls).advance? = atText? (p.after ch) cs := by
  have h := advanceBy?_before p ch l ls
  rw [hsize, advanceBy?] at h
  rw [atText?_eq hl, Position.after_of_ne p hch, hsize, ← h]
  exact (Option.bind_fun_some _).symm

theorem advance?_of_atText? (h : atText? p (ch :: cs) = some c) (hch : ch ≠ '\n')
    (hsize : ch.utf8Size = 1) : c.advance? = atText? (p.after ch) cs := by
  obtain ⟨l, ls, hl⟩ := Text.exists_lines_eq_cons cs
  rw [atText?_cons hch hl] at h
  cases h
  exact advance?_before hch hsize hl p

theorem octet_of_atText? (h : atText? p (ch :: cs) = some c) (hch : ch ≠ '\n') :
    c.octet = .first ch ∧ c.position = p := by
  obtain ⟨l, ls, hl⟩ := Text.exists_lines_eq_cons cs
  rw [atText?_cons hch hl] at h
  cases h
  exact ⟨rfl, rfl⟩

theorem octet_of_bracedRange? {r : Range} (h : c.bracedRange? = some r) :
    c.octet = .first '{' := by
  rw [bracedRange?_eq] at h
  split at h
  · assumption
  · cases h

/-- A cursor before a text stands behind the blank lines that come first. -/
theorem exists_of_atText? (h : atText? p cs = some c) :
    ∃ bs ch ds, cs = bs ++ ch :: ds ∧ Text.isAllBlank bs = true ∧ ch ≠ '\n' ∧
      atText? (p.afterAll bs) (ch :: ds) = some c ∧ (cs.head? ≠ some '\n' → bs = []) := by
  cases cs with
  | nil => cases h
  | cons ch cs =>
    by_cases hch : ch = '\n'
    · subst hch
      rw [atText?_newline] at h
      rcases Text.isAllBlank_or_exists_filled cs with
        hblank | ⟨bs, e, es, rfl, hbs, he, hfilled⟩
      · rw [firstFilled?_of_isAllBlank hblank] at h
        cases h
      · obtain ⟨l, ls, hl⟩ := Text.exists_lines_eq_cons es
        rw [Text.firstLine_eq hl] at hfilled
        rw [firstFilled?_blankLines hbs he hl hfilled] at h
        refine ⟨'\n' :: bs, e, es, rfl, hbs.isAllBlank, he, ?_, fun hne => absurd rfl hne⟩
        rw [Position.afterAll_cons, Position.after_newline, atText?_cons he hl, h]
    · exact ⟨[], ch, cs, rfl, rfl, hch, h, fun _ => rfl⟩

/-! ## Blanks and short titles -/

/-- The first place from a text on that is neither blank nor in a comment. -/
def skip? (p : Position) (cs : List Char) : Option Cursor :=
  (atText? p cs).bind skipBlank?

theorem skip?_stop (hch : isBlank ch = false) (hcom : ch ≠ '%') (p : Position) (cs : List Char) :
    skip? p (ch :: cs) = atText? p (ch :: cs) := by
  have hn : ch ≠ '\n' := (ne_of_isBlank rfl hch).symm
  obtain ⟨l, ls, hl⟩ := Text.exists_lines_eq_cons cs
  rw [skip?, atText?_cons hn hl, Option.bind_some, Manuscript.skipBlank?_before hcom hch]

theorem skip?_blank (hch : isBlank ch = true) (p : Position) (cs : List Char) :
    skip? p (ch :: cs) = skip? (p.after ch) cs := by
  have hpass : ∀ p c cs, isBlank c = true → c ≠ '\n' →
      skip? p (c :: cs) = skip? (p.after c) cs := by
    intro p c cs hc hn
    obtain ⟨l, ls, hl⟩ := Text.exists_lines_eq_cons cs
    rw [skip?, skip?, atText?_cons hn hl, Option.bind_some, skipBlank?_first rfl,
      if_neg (ne_of_isBlank hc rfl), if_pos hc, advanceBy?_before, atText?_eq hl,
      Position.after_of_ne p hn]
  by_cases hn : ch = '\n'
  · subst hn
    exact bind_atText?_newline hpass p cs
  · exact hpass p ch cs hch hn

theorem skip?_blanks {bs : List Char} (hbs : Text.isAllBlank bs = true) (p : Position)
    (cs : List Char) : skip? p (bs ++ cs) = skip? (p.afterAll bs) cs := by
  induction bs generalizing p with
  | nil => rfl
  | cons b bs ih =>
    rw [Text.isAllBlank, List.all_cons, Bool.and_eq_true] at hbs
    rw [List.cons_append, skip?_blank hbs.1, ih hbs.2, Position.afterAll_cons]

theorem exists_of_skip? (hcom : '%' ∉ cs) (h : skip? p cs = some c) :
    ∃ bs ch ds, cs = bs ++ ch :: ds ∧ Text.isAllBlank bs = true ∧ isBlank ch = false ∧
      atText? (p.afterAll bs) (ch :: ds) = some c := by
  induction cs generalizing p with
  | nil => cases h
  | cons ch cs ih =>
    rw [List.mem_cons, not_or] at hcom
    by_cases hblank : isBlank ch = true
    · rw [skip?_blank hblank] at h
      obtain ⟨bs, ch', ds, rfl, hbs, hfilled, hat⟩ := ih hcom.2 h
      refine ⟨ch :: bs, ch', ds, rfl, ?_, hfilled, hat⟩
      rw [Text.isAllBlank] at hbs ⊢
      rw [List.all_cons, hblank, hbs]
      rfl
    · have hfilled : isBlank ch = false := by simpa using hblank
      rw [skip?_stop hfilled (Ne.symm hcom.1)] at h
      exact ⟨[], ch, cs, rfl, rfl, hfilled, h⟩

theorem passShortTitle?_brace (h : atText? p ('{' :: cs) = some c) :
    c.passShortTitle? = some c := by
  obtain ⟨hoctet, -⟩ := octet_of_atText? h (by decide)
  rw [passShortTitle?, hoctet, if_neg (by decide)]

/-- A reader on an opening bracket goes on behind the short title. -/
theorem passShortTitle?_bracket (h : atText? p ('[' :: cs) = some c) :
    c.passShortTitle? = (close? .bracket 0 (p.after '[') cs).bind
      fun close => close.advance?.bind skipBlank? := by
  obtain ⟨hoctet, -⟩ := octet_of_atText? h (by decide)
  rw [passShortTitle?, if_pos hoctet, skipShortTitle?_eq, advance?_of_atText? h (by decide) rfl,
    close?, Option.bind_assoc]

end Cursor

/-! ## Braces -/

namespace Step

variable {k : Delimiter} {p : Position} {n : Nat} {ss ss' : List Step} {cs rest rest' : List Char}

/-- A row of steps through a group up to the delimiter that closes it. -/
structure Spans (k : Delimiter) (ss : List Step) (cs rest : List Char) : Prop where
  text_eq : cs = texts ss ++ k.closer :: rest
  passes : Passes k (k.closer :: rest) 0 ss
  closed : depthAfterAll k 0 ss = 0

theorem exists_spans_of_close? {d : Cursor} (h : Cursor.close? k 0 p cs = some d) :
    ∃ ss rest, Spans k ss cs rest ∧
      Cursor.atText? (p.afterAll (texts ss)) (k.closer :: rest) = some d := by
  obtain ⟨ss, rest, htext, hpasses, hclosed, hd⟩ := close?_eq_some_iff.1 h
  exact ⟨ss, rest, ⟨htext, hpasses, hclosed⟩, hd⟩

theorem Spans.close? (h : Spans k ss cs rest) (p : Position) :
    Cursor.close? k 0 p cs = Cursor.atText? (p.afterAll (texts ss)) (k.closer :: rest) := by
  obtain ⟨d, hd⟩ := Cursor.exists_atText? k.closer_ne_newline (p.afterAll (texts ss)) rest
  rw [hd, close?_eq_some_iff]
  exact ⟨ss, rest, h.text_eq, h.passes, h.closed, hd⟩

/-- A group has one end. -/
theorem Spans.unique (h : Spans k ss cs rest) (h' : Spans k ss' cs rest') :
    texts ss = texts ss' ∧ rest = rest' := by
  let b : Buffer := .holding ⟨""⟩ cs
  have hs : b.Splits (Position.start.afterAll (texts ss)) (texts ss) (k.closer :: rest) :=
    ⟨h.text_eq, rfl⟩
  have hs' : b.Splits (Position.start.afterAll (texts ss')) (texts ss') (k.closer :: rest') :=
    ⟨h'.text_eq, rfl⟩
  obtain ⟨d, hd⟩ := Cursor.exists_atText? k.closer_ne_newline
    (Position.start.afterAll (texts ss)) rest
  have hd' := (h'.close? .start).symm.trans ((h.close? .start).trans hd)
  have hplace := (Cursor.octet_of_atText? hd k.closer_ne_newline).2
  have hplace' := (Cursor.octet_of_atText? hd' k.closer_ne_newline).2
  rw [← hplace] at hs
  rw [← hplace'] at hs'
  obtain ⟨htext, hrest⟩ := hs.unique hs'
  exact ⟨htext, (List.cons.inj hrest).2⟩

/-- Blanks before a group belong to it. -/
theorem Spans.blanks {bs : List Char} (hbs : Text.isAllBlank bs = true)
    (h : Spans k ss cs rest) : ∃ ts, texts ts = bs ++ texts ss ∧ Spans k ts (bs ++ cs) rest := by
  induction bs with
  | nil => exact ⟨ss, rfl, h⟩
  | cons b bs ih =>
    rw [Text.isAllBlank, List.all_cons, Bool.and_eq_true] at hbs
    obtain ⟨ts, htexts, hts⟩ := ih hbs.2
    obtain ⟨hcloser, hopener⟩ := k.ne_of_isBlank hbs.1
    have hdepth : k.depthAfter (.first b) 0 = 0 := Delimiter.depthAfter_of_ne hcloser hopener
    refine ⟨char b (ne_of_isBlank hbs.1 rfl) (ne_of_isBlank hbs.1 rfl) :: ts, ?_, ?_,
      ⟨fun hclose => hcloser hclose.1, ?_⟩, ?_⟩
    · rw [texts_cons, htexts]
      rfl
    · rw [texts_cons, List.append_assoc, List.cons_append, hts.text_eq]
      rfl
    · show Passes k _ (k.depthAfter (.first b) 0) ts
      rw [hdepth]
      exact hts.passes
    · show depthAfterAll k (k.depthAfter (.first b) 0) ts = 0
      rw [hdepth]
      exact hts.closed

end Step

namespace Buffer.Splits

variable {b : Buffer} {p : Position} {us cs : List Char} {c : Cursor}

/-- The argument is the text of the steps through the group, without the blank lines that
come first. -/
theorem exists_steps {r : Range} (hs : b.Splits p us ('{' :: cs))
    (hc : Cursor.atText? p ('{' :: cs) = some c) (h : c.bracedRange? = some r) :
    ∃ bs ss ds rest, cs = bs ++ ds ∧ Step.Spans .brace ss ds rest ∧
      Text.isAllBlank bs = true ∧ ds.head? ≠ some '\n' ∧
      b.excerpt? r = some (Step.texts ss) ∧ (cs.head? ≠ some '\n' → bs = []) := by
  obtain ⟨hoctet, -⟩ := Cursor.octet_of_atText? hc (by decide)
  rw [Cursor.bracedRange?_eq, if_pos hoctet, Cursor.advance?_of_atText? hc (by decide) rfl] at h
  obtain ⟨start, hstart, h⟩ := Option.bind_eq_some_iff.1 h
  obtain ⟨close, hclose, rfl⟩ := Option.map_eq_some_iff.1 h
  obtain ⟨bs, ch, ds, rfl, hbs, hch, hstart, hhead⟩ := Cursor.exists_of_atText? hstart
  obtain ⟨-, hplace⟩ := Cursor.octet_of_atText? hstart hch
  have hgroup : Cursor.close? .brace 0 ((p.after '{').afterAll bs) (ch :: ds) = some close := by
    rw [Cursor.close?, hstart]
    exact hclose
  obtain ⟨ss, rest, hspans, hend⟩ := Step.exists_spans_of_close? hgroup
  obtain ⟨-, hplace'⟩ := Cursor.octet_of_atText? hend (by decide)
  refine ⟨bs, ss, ch :: ds, rest, rfl, hspans, hbs, by simpa using hch, ?_, hhead⟩
  have hfrom := hs.step.steps
  rw [hspans.text_eq] at hfrom
  rw [hplace, hplace', Range.between, if_pos (Position.le_afterAll _ _)]
  exact hfrom.excerpt? hfrom.steps

/-- What a reader hands out lacks only blanks at the beginning of the group. -/
theorem exists_raw {r : Range} {ss : List Step} {rest : List Char}
    (hs : b.Splits p us ('{' :: cs)) (hc : Cursor.atText? p ('{' :: cs) = some c)
    (h : c.bracedRange? = some r) (hspans : Step.Spans .brace ss cs rest) :
    ∃ bs raw, Step.texts ss = bs ++ raw ∧ Text.isAllBlank bs = true ∧
      b.excerpt? r = some raw := by
  obtain ⟨bs, ss', ds, rest', rfl, hspans', hbs, -, hexcerpt, -⟩ := hs.exists_steps hc h
  obtain ⟨ts, htexts, hts⟩ := hspans'.blanks hbs
  refine ⟨bs, Step.texts ss', ?_, hbs, hexcerpt⟩
  rw [← htexts]
  exact (hspans.unique hts).1

end Buffer.Splits

namespace Cursor

variable {p : Position} {c : Cursor} {cs : List Char}

theorem isSome_bracedRange? (hc : atText? p ('{' :: cs) = some c) :
    c.bracedRange?.isSome = true ↔ ∃ ss rest, Step.Spans .brace ss cs rest := by
  obtain ⟨hoctet, -⟩ := octet_of_atText? hc (by decide)
  have hgroup : c.bracedRange?.isSome = (close? .brace 0 (p.after '{') cs).isSome := by
    rw [bracedRange?_eq, if_pos hoctet, advance?_of_atText? hc (by decide) rfl, close?]
    cases atText? (p.after '{') cs with
    | none => rfl
    | some start => exact Option.isSome_map
  rw [hgroup, Option.isSome_iff_exists]
  constructor
  · rintro ⟨d, hd⟩
    obtain ⟨ss, rest, hspans, -⟩ := Step.exists_spans_of_close? hd
    exact ⟨ss, rest, hspans⟩
  · rintro ⟨ss, rest, hspans⟩
    rw [hspans.close?]
    exact exists_atText? (by decide) _ rest

end Cursor

/-! ## Readings of an argument -/

namespace Step

variable {k : Delimiter} {n : Nat} {ss : List Step} {cs rest raw : List Char}

/-- Steps can be taken whatever comes behind them, as long as it fills its line. -/
theorem Passes.of_filled {d : Char} (hd : isBlank d = false) (h : Passes k rest n ss)
    (vs : List Char) : Passes k (d :: vs) n ss := by
  have hbreak : d ≠ '\n' := (ne_of_isBlank rfl hd).symm
  induction ss generalizing n with
  | nil => trivial
  | cons s ss ih =>
    refine ⟨?_, ih h.2⟩
    cases s with
    | char c hesc hcom => exact h.1
    | escape c hn => trivial
    | comment w hw => trivial
    | carry bs hbs c hn => exact Text.isAllBlank_firstLine_append hbreak hd h.1 vs

/-- The steps of a reader through the whole of an argument. -/
structure Reads (ss : List Step) (raw : List Char) : Prop where
  spans : Spans .brace ss (raw ++ ['}']) []
  head?_ne : raw.head? ≠ some '\n'

theorem Reads.text_eq (h : Reads ss raw) : raw = texts ss :=
  List.append_cancel_right h.spans.text_eq

theorem Spans.reads (h : Spans .brace ss cs rest) (hhead : cs.head? ≠ some '\n') :
    Reads ss (texts ss) := by
  refine ⟨⟨rfl, h.passes.of_filled rfl [], h.closed⟩, ?_⟩
  rw [h.text_eq] at hhead
  cases htext : texts ss with
  | nil => simp
  | cons c us =>
    rw [htext] at hhead
    exact hhead

end Step

namespace Title

/-- Whether a text is handed out as the argument of a command of some document. -/
def IsArgument (raw : List Char) : Prop :=
  ∃ (b : Buffer) (o : Occurrence) (r : Range), o ∈ Occurrence.scan b ∧ o.argument? b = some r ∧
    b.excerpt? r = some raw

end Title

theorem Occurrence.exists_reads {b : Buffer} {o : Occurrence} {r : Range} {raw : List Char}
    (h : o.argument? b = some r) (hraw : b.excerpt? r = some raw) : ∃ ss, Step.Reads ss raw := by
  obtain ⟨c, hon, hr⟩ := exists_bracedRange? h
  obtain ⟨us, cs, hs⟩ := hon.exists_splits (Cursor.octet_of_bracedRange? hr)
  have hat := (hon.eq_atText? hs (by decide)).symm
  obtain ⟨bs, ss, ds, rest, -, hspans, -, hhead, hexcerpt, -⟩ := hs.exists_steps hat hr
  rw [hraw] at hexcerpt
  cases hexcerpt
  exact ⟨ss, hspans.reads hhead⟩

/-! ## The command that begins a document -/

namespace Occurrence

variable {b : Buffer} {k : Keyword} {d : Char} {rest : List Char}

/-- A command at the beginning of a document with the delimiter `d` right after its name. -/
def leading (k : Keyword) (d : Char) : Occurrence :=
  ⟨k, ⟨.start, Position.start.afterAll ('\\' :: k.name.toList ++ [d])⟩⟩

theorem scan_leading (hd : d = '{' ∨ d = '[') (h : b.text = '\\' :: k.name.toList ++ d :: rest) :
    scan b = leading k d ::
      scanFrom 0 (Position.start.afterAll ('\\' :: k.name.toList ++ [d])) rest := by
  have hending : ending? (d :: rest) = some [d] := by
    rcases hd with rfl | rfl
    · exact ending?_brace rest
    · exact ending?_bracket rest
  have hform : formAt? (('\\' :: k.name.toList ++ [d]) ++ rest) =
      some (k, '\\' :: k.name.toList ++ [d]) := by
    rw [List.append_assoc, List.cons_append, List.singleton_append, formAt?_command, hending]
    rfl
  have hreported : isReported k ('\\' :: k.name.toList ++ [d]) = true := by
    rw [isReported_concat]
    rcases hd with rfl | rfl <;> cases k <;> rfl
  rw [scan, h, List.append_cons]
  exact scanFrom_form hform hreported .start

/-- A reader of the argument starts on the delimiter. -/
theorem argument?_leading (hd : d = '{' ∨ d = '[')
    (h : b.text = '\\' :: k.name.toList ++ d :: rest) :
    (leading k d).argument? b =
      (Cursor.atText? (Position.start.afterAll ('\\' :: k.name.toList)) (d :: rest)).bind
        fun c => c.passShortTitle?.bind Cursor.bracedRange? := by
  have hdelim : d ≠ '\n' ∧ d ≠ '%' ∧ d.utf8Size = 1 ∧ isBlank d = false := by
    rcases hd with rfl | rfl <;> decide
  have hgenuine : (leading k d).isGenuine b = true :=
    (Buffer.Splits.start b).isGenuine_iff.2 rfl
  have hplace : (leading k d).delimiter = Position.start.afterAll ('\\' :: k.name.toList) :=
    delimiter_eq rfl hdelim.1 hdelim.2.2.1
  have hs : b.Splits (Position.start.afterAll ('\\' :: k.name.toList)) ('\\' :: k.name.toList)
      (d :: rest) :=
    ⟨h, rfl⟩
  obtain ⟨l, ls, hl⟩ := Text.exists_lines_eq_cons rest
  rw [argument?, if_pos hgenuine, hplace, hs.cursorAt? hdelim.1 hl, Option.bind_some,
    Manuscript.skipBlank?_before hdelim.2.1 hdelim.2.2.2, Option.bind_some,
    Cursor.atText?_cons hdelim.1 hl, Option.bind_some]

end Occurrence

/-- What a reader reads is the argument of a heading that makes up its document. -/
theorem Step.Reads.isArgument {ss : List Step} {raw : List Char} (h : Step.Reads ss raw) :
    Title.IsArgument raw := by
  let name := '\\' :: Keyword.section.name.toList
  let b : Buffer := .holding ⟨""⟩ (name ++ '{' :: (raw ++ ['}']))
  have hs : b.Splits (Position.start.afterAll name) name ('{' :: (raw ++ ['}'])) := ⟨rfl, rfl⟩
  obtain ⟨c, hat⟩ := Cursor.exists_atText? (show '{' ≠ '\n' by decide)
    (Position.start.afterAll name) (raw ++ ['}'])
  obtain ⟨r, hr⟩ := Option.isSome_iff_exists.1
    ((Cursor.isSome_bracedRange? hat).2 ⟨ss, [], h.spans⟩)
  have hscan := Occurrence.scan_leading (k := .section) (Or.inl rfl) (show b.text = _ from rfl)
  have hargument := Occurrence.argument?_leading (k := .section) (Or.inl rfl)
    (show b.text = _ from rfl)
  rw [hat, Option.bind_some, Cursor.passShortTitle?_brace hat, Option.bind_some, hr] at hargument
  obtain ⟨bs, ss', ds, rest, htext, hspans, -, -, hexcerpt, hnil⟩ := hs.exists_steps hat hr
  have hhead : (raw ++ ['}']).head? ≠ some '\n' := by
    have hne := h.head?_ne
    cases raw with
    | nil => decide
    | cons c cs => exact hne
  rw [hnil hhead, List.nil_append] at htext
  rw [← htext] at hspans
  rw [← (h.spans.unique hspans).1, ← h.text_eq] at hexcerpt
  exact ⟨b, _, r, by rw [hscan]; exact List.mem_cons_self, hargument, hexcerpt⟩

end Sectioning
