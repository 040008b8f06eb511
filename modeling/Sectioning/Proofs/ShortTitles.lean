/-
Which short titles are passed over.

A reader on the opening bracket of a command looks for the bracket that closes it and
counts every bracket on the way, those inside braces too.  In a text without backslashes
and percent signs it comes to a title `T` exactly if brackets that are balanced, a closing
bracket, blanks and the title in braces come next (`HasTitle`, `exists_title_iff`).  So a
command with a short title and a title has its title read if the brackets of the short
title are balanced, and otherwise only if the short title itself holds the same title in
the right place (`hasTitle_append_iff`).
-/
import Sectioning.Proofs.Arguments
import Sectioning.Proofs.LineEnds

namespace Sectioning

/-! ## Balanced text -/

namespace Delimiter

variable {k : Delimiter} {n m : Nat} {c : Char} {us vs w w' x x' : List Char}

theorem not_close_of_isBalanced (h : k.isBalanced n (c :: us) = true) :
    ¬ (c = k.closer ∧ n = 0) := by
  rintro ⟨rfl, rfl⟩
  rw [isBalanced_close] at h
  cases h

/-- A text has one beginning that is balanced up to a closing delimiter. -/
theorem isBalanced_unique (h : k.isBalanced n w = true) (h' : k.isBalanced n w' = true)
    (heq : w ++ k.closer :: x = w' ++ k.closer :: x') : w = w' := by
  induction w generalizing n w' with
  | nil =>
    cases w' with
    | nil => rfl
    | cons c w' =>
      exact absurd ⟨(List.cons.inj heq).1.symm, isBalanced_nil.1 h⟩ (not_close_of_isBalanced h')
  | cons c w ih =>
    cases w' with
    | nil =>
      exact absurd ⟨(List.cons.inj heq).1, isBalanced_nil.1 h'⟩ (not_close_of_isBalanced h)
    | cons c' w' =>
      obtain ⟨rfl, htail⟩ := List.cons.inj heq
      rw [isBalanced_cons (not_close_of_isBalanced h)] at h
      rw [isBalanced_cons (not_close_of_isBalanced h')] at h'
      rw [ih h h' htail]

theorem exists_isBalanced_of_append (h : k.isBalanced n (us ++ vs) = true) :
    ∃ m, k.isBalanced m vs = true := by
  induction us generalizing n with
  | nil => exact ⟨n, h⟩
  | cons c us ih =>
    rw [List.cons_append] at h
    rw [isBalanced_cons (not_close_of_isBalanced h)] at h
    exact ih h

/-- An open group is closed behind balanced text. -/
theorem exists_close_of_isBalanced (h : k.isBalanced (n + (m + 1)) us = true) :
    ∃ w x, us = w ++ k.closer :: x ∧ k.isBalanced n w = true := by
  induction us generalizing n with
  | nil =>
    have hn : n + (m + 1) = 0 := isBalanced_nil.1 h
    omega
  | cons c us ih =>
    by_cases hclose : c = k.closer ∧ n = 0
    · exact ⟨[], us, by rw [hclose.1]; rfl, by rw [hclose.2]; rfl⟩
    · rw [isBalanced_cons (not_close_of_isBalanced h)] at h
      have hdepth : k.depthAfter (.first c) (n + (m + 1)) = k.depthAfter (.first c) n + (m + 1) := by
        unfold depthAfter
        split
        · next hc =>
          have hn : n ≠ 0 := fun hn => hclose ⟨by simpa using hc, hn⟩
          omega
        · split <;> omega
      rw [hdepth] at h
      obtain ⟨w, x, rfl, hw⟩ := ih h
      exact ⟨c :: w, x, rfl, by rw [isBalanced_cons hclose, hw]⟩

end Delimiter

namespace Step

variable {k : Delimiter} {n : Nat} {ss : List Step} {cs w rest : List Char}

theorem exists_passes_of_isBalanced (hesc : '\\' ∉ w) (hcom : '%' ∉ w)
    (h : k.isBalanced n w = true) (rest : List Char) :
    ∃ ss, texts ss = w ∧ Passes k rest n ss ∧ depthAfterAll k n ss = 0 := by
  induction w generalizing n with
  | nil => exact ⟨[], rfl, trivial, Delimiter.isBalanced_nil.1 h⟩
  | cons c w ih =>
    rw [List.mem_cons, not_or] at hesc hcom
    have hclose := Delimiter.not_close_of_isBalanced h
    rw [Delimiter.isBalanced_cons hclose] at h
    obtain ⟨ss, rfl, hpasses, hclosed⟩ := ih hesc.2 hcom.2 h
    exact ⟨char c (Ne.symm hesc.1) (Ne.symm hcom.1) :: ss, rfl, ⟨hclose, hpasses⟩, hclosed⟩

/-- Without backslashes and percent signs each step is a character. -/
theorem Passes.isBalanced (hesc : '\\' ∉ texts ss) (hcom : '%' ∉ texts ss)
    (h : Passes k rest n ss) (hclosed : depthAfterAll k n ss = 0) :
    k.isBalanced n (texts ss) = true := by
  induction ss generalizing n with
  | nil =>
    have hn : n = 0 := hclosed
    rw [hn]
    rfl
  | cons s ss ih =>
    rw [texts_cons, List.mem_append, not_or] at hesc hcom
    cases s with
    | char c hc hc' =>
      rw [texts_cons]
      show k.isBalanced n (c :: texts ss) = true
      rw [Delimiter.isBalanced_cons h.1]
      exact ih hesc.2 hcom.2 h.2 hclosed
    | escape c hbreak => exact absurd List.mem_cons_self hesc.1
    | comment w hbreak => exact absurd List.mem_cons_self hcom.1
    | carry bs hbs c hbreak => exact absurd List.mem_cons_self hesc.1

theorem exists_spans (hesc : '\\' ∉ w) (hcom : '%' ∉ w) (h : k.isBalanced 0 w = true)
    (rest : List Char) : ∃ ss, texts ss = w ∧ Spans k ss (w ++ k.closer :: rest) rest := by
  obtain ⟨ss, rfl, hpasses, hclosed⟩ := exists_passes_of_isBalanced hesc hcom h (k.closer :: rest)
  exact ⟨ss, rfl, rfl, hpasses, hclosed⟩

theorem Spans.isBalanced (hesc : '\\' ∉ cs) (hcom : '%' ∉ cs) (h : Spans k ss cs rest) :
    k.isBalanced 0 (texts ss) = true := by
  rw [h.text_eq, List.mem_append, not_or] at hesc hcom
  exact h.passes.isBalanced hesc.1 hcom.1 h.closed

end Step

/-! ## A short title and a title -/

/-- Balanced brackets, a closing bracket, blanks, and then the title `T` in braces. -/
def HasTitle (cs T : List Char) : Prop :=
  ∃ u bs w x, cs = u ++ ']' :: (bs ++ '{' :: (w ++ '}' :: x)) ∧
    Delimiter.bracket.isBalanced 0 u = true ∧ Text.isAllBlank bs = true ∧
    Delimiter.brace.isBalanced 0 w = true ∧ Title.clean w = T

namespace Buffer

variable {b : Buffer} {p : Position} {c : Cursor} {ch : Char} {us cs T : List Char}

/-- The cleaned text inside the braces that open at a cursor. -/
def braced? (b : Buffer) (c : Cursor) : Option (List Char) :=
  (c.bracedRange?.bind b.excerpt?).map Title.clean

theorem braced?_eq_some_iff : b.braced? c = some T ↔
    ∃ r raw, c.bracedRange? = some r ∧ b.excerpt? r = some raw ∧ Title.clean raw = T := by
  simp only [braced?, Option.map_eq_some_iff, Option.bind_eq_some_iff]
  constructor
  · rintro ⟨raw, ⟨r, hr, hraw⟩, hclean⟩
    exact ⟨r, raw, hr, hraw, hclean⟩
  · rintro ⟨r, raw, hr, hraw, hclean⟩
    exact ⟨raw, ⟨r, hr, hraw⟩, hclean⟩

theorem Splits.braced?_iff (hs : b.Splits p us ('{' :: cs))
    (hc : Cursor.atText? p ('{' :: cs) = some c) (hesc : '\\' ∉ cs) (hcom : '%' ∉ cs) :
    b.braced? c = some T ↔ ∃ w x, cs = w ++ '}' :: x ∧ Delimiter.brace.isBalanced 0 w = true ∧
      Title.clean w = T := by
  -- the two directions name the same steps, and the blanks left out do not show in a title
  have hraw : ∀ {r ss rest}, c.bracedRange? = some r → Step.Spans .brace ss cs rest →
      ∃ raw, b.excerpt? r = some raw ∧ Title.clean (Step.texts ss) = Title.clean raw := by
    intro r ss rest hr hspans
    obtain ⟨bs, raw, htexts, hbs, hraw⟩ := hs.exists_raw hc hr hspans
    rw [hspans.text_eq, List.mem_append, not_or, htexts] at hesc hcom
    refine ⟨raw, hraw, ?_⟩
    rw [htexts, Title.clean_blanks hbs hesc.1 hcom.1]
  rw [braced?_eq_some_iff]
  constructor
  · rintro ⟨r, raw, hr, hexcerpt, rfl⟩
    obtain ⟨ss, rest, hspans⟩ := (Cursor.isSome_bracedRange? hc).1 (Option.isSome_of_eq_some hr)
    obtain ⟨raw', hexcerpt', hclean⟩ := hraw hr hspans
    rw [hexcerpt'] at hexcerpt
    cases hexcerpt
    exact ⟨Step.texts ss, rest, hspans.text_eq, hspans.isBalanced hesc hcom, hclean⟩
  · rintro ⟨w, x, rfl, hw, rfl⟩
    have hnotMem : '\\' ∉ w ∧ '%' ∉ w := by
      rw [List.mem_append, not_or] at hesc hcom
      exact ⟨hesc.1, hcom.1⟩
    obtain ⟨ss, rfl, hspans⟩ := Step.exists_spans hnotMem.1 hnotMem.2 hw x
    obtain ⟨r, hr⟩ := Option.isSome_iff_exists.1 ((Cursor.isSome_bracedRange? hc).2 ⟨ss, x, hspans⟩)
    obtain ⟨raw, hexcerpt, hclean⟩ := hraw hr hspans
    exact ⟨r, raw, hr, hexcerpt, hclean.symm⟩

/-- Behind a short title come blanks and the braces of the title. -/
theorem Splits.skip?_braced?_iff (hs : b.Splits p us cs) (hesc : '\\' ∉ cs) (hcom : '%' ∉ cs) :
    (Cursor.skip? p cs).bind b.braced? = some T ↔
      ∃ bs w x, cs = bs ++ '{' :: (w ++ '}' :: x) ∧ Text.isAllBlank bs = true ∧
        Delimiter.brace.isBalanced 0 w = true ∧ Title.clean w = T := by
  constructor
  · intro hT
    obtain ⟨c, hc, htitle⟩ := Option.bind_eq_some_iff.1 hT
    obtain ⟨bs, ch, ds, rfl, hbs, hfilled, hat⟩ := Cursor.exists_of_skip? hcom hc
    have hopen : ch = '{' := by
      obtain ⟨r, -, hr, -⟩ := braced?_eq_some_iff.1 htitle
      have hoctet := Cursor.octet_of_bracedRange? hr
      rw [(Cursor.octet_of_atText? hat (ne_of_isBlank rfl hfilled).symm).1,
        Octet.first.injEq] at hoctet
      exact hoctet
    subst hopen
    simp only [List.mem_append, List.mem_cons, not_or] at hesc hcom
    obtain ⟨w, x, rfl, hw, hclean⟩ := (hs.steps.braced?_iff hat hesc.2.2 hcom.2.2).1 htitle
    exact ⟨bs, w, x, rfl, hbs, hw, hclean⟩
  · rintro ⟨bs, w, x, rfl, hbs, hw, hclean⟩
    simp only [List.mem_append, List.mem_cons, not_or] at hesc hcom
    obtain ⟨c, hat⟩ := Cursor.exists_atText? (show '{' ≠ '\n' by decide) (p.afterAll bs)
      (w ++ '}' :: x)
    rw [Cursor.skip?_blanks hbs, Cursor.skip?_stop rfl (by decide), hat, Option.bind_some,
      hs.steps.braced?_iff hat (by simpa using hesc.2.2) (by simpa using hcom.2.2)]
    exact ⟨w, x, rfl, hw, hclean⟩

end Buffer

namespace Occurrence

variable {b : Buffer} {k : Keyword} {cs T : List Char}

/-- The title that a reader comes to from the opening bracket of a command. -/
theorem title_leading_iff (h : b.text = '\\' :: k.name.toList ++ '[' :: cs) (hesc : '\\' ∉ cs)
    (hcom : '%' ∉ cs) :
    (((leading k '[').argument? b).bind b.excerpt?).map Title.clean = some T ↔ HasTitle cs T := by
  generalize hp : Position.start.afterAll ('\\' :: k.name.toList) = p
  have hs : b.Splits (p.after '[') ('\\' :: k.name.toList ++ ['[']) cs :=
    Buffer.Splits.step ⟨h, hp.symm⟩
  obtain ⟨c, hat⟩ := Cursor.exists_atText? (show '[' ≠ '\n' by decide) p cs
  have hargument : (((leading k '[').argument? b).bind b.excerpt?).map Title.clean =
      (Cursor.close? .bracket 0 (p.after '[') cs).bind
        fun close => (close.advance?.bind Cursor.skipBlank?).bind b.braced? := by
    have hbind : ∀ x : Option Cursor, ((x.bind Cursor.bracedRange?).bind b.excerpt?).map
        Title.clean = x.bind b.braced? := by
      intro x
      cases x <;> rfl
    rw [argument?_leading (Or.inr rfl) h, hp, hat, Option.bind_some,
      Cursor.passShortTitle?_bracket hat, hbind, Option.bind_assoc]
  have hbehind : ∀ {ss rest close}, Step.Spans .bracket ss cs rest →
      Cursor.atText? ((p.after '[').afterAll (Step.texts ss)) (']' :: rest) = some close →
      ((close.advance?.bind Cursor.skipBlank?).bind b.braced? = some T ↔
        ∃ bs w x, rest = bs ++ '{' :: (w ++ '}' :: x) ∧ Text.isAllBlank bs = true ∧
          Delimiter.brace.isBalanced 0 w = true ∧ Title.clean w = T) := by
    intro ss rest close hspans hclose
    rw [hspans.text_eq] at hs hesc hcom
    simp only [List.mem_append, List.mem_cons, not_or] at hesc hcom
    rw [Cursor.advance?_of_atText? hclose (by decide) rfl]
    exact hs.steps.step.skip?_braced?_iff hesc.2.2 hcom.2.2
  rw [hargument]
  constructor
  · intro hT
    obtain ⟨close, hclose, hT⟩ := Option.bind_eq_some_iff.1 hT
    obtain ⟨ss, rest, hspans, hend⟩ := Step.exists_spans_of_close? hclose
    obtain ⟨bs, w, x, rfl, hbs, hw, hclean⟩ := (hbehind hspans hend).1 hT
    exact ⟨Step.texts ss, bs, w, x, hspans.text_eq, hspans.isBalanced hesc hcom, hbs, hw, hclean⟩
  · rintro ⟨u, bs, w, x, rfl, hu, hbs, hw, hclean⟩
    have hnotMem : '\\' ∉ u ∧ '%' ∉ u := by
      rw [List.mem_append, not_or] at hesc hcom
      exact ⟨hesc.1, hcom.1⟩
    obtain ⟨ss, rfl, hspans⟩ := Step.exists_spans hnotMem.1 hnotMem.2 hu
      (bs ++ '{' :: (w ++ '}' :: x))
    obtain ⟨close, hend⟩ := Cursor.exists_atText? (show ']' ≠ '\n' by decide)
      ((p.after '[').afterAll (Step.texts ss)) (bs ++ '{' :: (w ++ '}' :: x))
    have hclose := (hspans.close? (p.after '[')).trans hend
    rw [show ']' = Delimiter.bracket.closer from rfl, hclose, Option.bind_some,
      hbehind hspans hend]
    exact ⟨bs, w, x, rfl, hbs, hw, hclean⟩

theorem reading_eq_heading_iff {o : Occurrence} {level : Nat} (hlevel : o.keyword.level? = some level)
    (hT : T ≠ []) :
    o.reading b = .heading ⟨String.ofList T, level, o.range.start, b.id⟩ ↔
      ((o.argument? b).bind b.excerpt?).map Title.clean = some T := by
  unfold reading
  cases hargument : o.argument? b with
  | none => simp
  | some r =>
    obtain ⟨raw, hraw⟩ := exists_excerpt? hargument
    simp only [hraw, Option.getD_some, Option.bind_some, Option.map_some, Option.some.injEq]
    unfold entryOf
    split
    · next hempty =>
      have hnil : Title.clean raw = [] := List.isEmpty_iff.1 hempty
      rw [hnil]
      exact iff_of_false (by simp) (Ne.symm hT)
    · rw [hlevel]
      simp only [Entry.heading.injEq, Heading.mk.injEq, and_true]
      constructor
      · intro hstring
        simpa using congrArg String.toList hstring
      · intro hclean
        rw [hclean]

end Occurrence

/-! ## Where the title is found -/

theorem Text.append_cons_cases {c d : Char} {us vs us' vs' : List Char}
    (h : us ++ c :: vs = us' ++ d :: vs') :
    us = us' ∧ c = d ∨ (∃ y, us' = us ++ c :: y ∧ vs = y ++ d :: vs') ∨
      ∃ y, us = us' ++ d :: y ∧ vs' = y ++ c :: vs := by
  rcases List.append_eq_append_iff.1 h with ⟨y, rfl, hy⟩ | ⟨y, rfl, hy⟩
  · rcases List.cons_eq_append_iff.1 hy with ⟨rfl, hvs⟩ | ⟨y, rfl, hvs⟩
    · exact Or.inl ⟨(List.append_nil us).symm, (List.cons.inj hvs).1.symm⟩
    · exact Or.inr (Or.inl ⟨y, rfl, hvs⟩)
  · rcases List.cons_eq_append_iff.1 hy with ⟨rfl, hvs⟩ | ⟨y, rfl, hvs⟩
    · exact Or.inl ⟨List.append_nil us', (List.cons.inj hvs).1⟩
    · exact Or.inr (Or.inr ⟨y, rfl, hvs⟩)

/-- Text without backslashes and percent signs in which the braces are balanced. -/
structure GroupedText where
  chars : List Char
  no_backslash : '\\' ∉ chars
  no_percent : '%' ∉ chars
  balanced : Delimiter.brace.isBalanced 0 chars = true

/-- A short title on one line. -/
structure ShortTitle extends GroupedText where
  no_break : '\n' ∉ chars

/-- A title that is not blank. -/
structure FullTitle extends GroupedText where
  filled : Text.isAllBlank chars = false

namespace GroupedText

variable (s t : GroupedText)

theorem count_clean {c : Char} (hc : isBlank c = false) :
    (Title.clean t.chars).count c = t.chars.count c := by
  rw [Title.clean_of_notMem t.no_backslash t.no_percent, Text.count_collapse hc]

/-- A title is not found behind a bracket of its own: it has one closing bracket more than
what stands there. -/
theorem clean_ne_of_behind {u bs w x : List Char}
    (h : '{' :: (t.chars ++ ['}']) = u ++ ']' :: (bs ++ '{' :: (w ++ '}' :: x))) :
    Title.clean w ≠ Title.clean t.chars := by
  intro hclean
  have hnotMem : ∀ c, c ≠ '{' → c ≠ '}' → c ∉ t.chars → c ∉ w := by
    intro c hopener hcloser hc hmem
    have hall : c ∈ '{' :: (t.chars ++ ['}']) := by
      rw [h]
      simp [hmem]
    simp only [List.mem_cons, List.mem_append, List.not_mem_nil, or_false] at hall
    rcases hall with hall | hall | hall
    · exact hopener hall
    · exact hc hall
    · exact hcloser hall
  have hw : w.count ']' = t.chars.count ']' := by
    rw [← t.count_clean rfl, ← hclean,
      Title.clean_of_notMem (hnotMem _ (by decide) (by decide) t.no_backslash)
        (hnotMem _ (by decide) (by decide) t.no_percent), Text.count_collapse rfl]
  have hcount := congrArg (List.count ']') h
  simp only [List.count_cons, List.count_append, List.count_nil, beq_self_eq_true, if_true] at hcount
  simp only [Char.reduceBEq, Bool.false_eq_true, if_false] at hcount
  omega

/-- A group that opens in the text closes in it. -/
theorem exists_closed_group {us y : List Char} (h : s.chars = us ++ '{' :: y) :
    ∃ w x, y = w ++ '}' :: x ∧ Delimiter.brace.isBalanced 0 w = true := by
  have hbalanced := s.balanced
  rw [h] at hbalanced
  obtain ⟨m, hm⟩ := Delimiter.exists_isBalanced_of_append hbalanced
  rw [Delimiter.isBalanced_cons (Delimiter.not_close_of_isBalanced hm)] at hm
  have hdepth : Delimiter.brace.depthAfter (.first '{') m = 0 + (m + 1) := (Nat.zero_add _).symm
  rw [hdepth] at hm
  exact Delimiter.exists_close_of_isBalanced hm

/-- The title of a command is read if the brackets of its short title are balanced, and
otherwise only if the short title holds it. -/
theorem hasTitle_append_iff :
    HasTitle (s.chars ++ ']' :: '{' :: (t.chars ++ ['}'])) (Title.clean t.chars) ↔
      Delimiter.bracket.isBalanced 0 s.chars = true ∨
        HasTitle s.chars (Title.clean t.chars) := by
  constructor
  · rintro ⟨u, bs, w, x, heq, hu, hbs, hw, hclean⟩
    rcases Text.append_cons_cases heq with ⟨rfl, -⟩ | ⟨y, rfl, hy⟩ | ⟨y, hs, hy⟩
    · exact Or.inl hu
    · exact absurd hclean (t.clean_ne_of_behind hy)
    · -- the short title is left early, and the group that follows opens and closes in it
      right
      rcases Text.append_cons_cases hy with ⟨-, hne⟩ | ⟨y', rfl, hy'⟩ | ⟨y', rfl, -⟩
      · exact absurd hne (by decide)
      · have hopen : s.chars = (u ++ ']' :: bs) ++ '{' :: y' := by
          rw [hs, List.append_assoc]
          rfl
        obtain ⟨w', x', rfl, hw'⟩ := s.exists_closed_group hopen
        rw [List.append_assoc, List.cons_append] at hy'
        obtain rfl := Delimiter.isBalanced_unique hw hw' hy'
        exact ⟨u, bs, w, x', hs, hu, hbs, hw, hclean⟩
      · exact absurd (by simp) (Text.notMem_of_isAllBlank hbs (show isBlank ']' = false from rfl))
  · rintro (hs | ⟨u, bs, w, x, hs, hu, hbs, hw, hclean⟩)
    · exact ⟨s.chars, [], t.chars, [], rfl, hs, rfl, t.balanced, rfl⟩
    · refine ⟨u, bs, w, x ++ ']' :: '{' :: (t.chars ++ ['}']), ?_, hu, hbs, hw, hclean⟩
      rw [hs]
      simp

end GroupedText

/-! ## Line ends -/

namespace GroupedText

/-- The text with its line ends made uniform. -/
def unified (t : GroupedText) : GroupedText where
  chars := Text.unifyBreaks t.chars
  no_backslash h := t.no_backslash (Text.mem_of_mem_unifyBreaks t.chars h)
  no_percent h := t.no_percent (Text.mem_of_mem_unifyBreaks t.chars h)
  balanced := by rw [Text.isBalanced_unifyBreaks, t.balanced]

theorem clean_unified (t : GroupedText) : Title.clean t.unified.chars = Title.clean t.chars := by
  rw [Title.clean_of_notMem t.unified.no_backslash t.unified.no_percent,
    Title.clean_of_notMem t.no_backslash t.no_percent, Text.collapse, Text.collapse]
  exact congrArg _ (Text.words_unifyBreaks t.chars)

end GroupedText

/-! ## Commands with a short title -/

namespace ShortTitle

variable (id : SourceId) (k : Keyword) (s : ShortTitle) (t : FullTitle)

/-- The document of one command with a short title and a title. -/
def document : Buffer :=
  .ofText id ('\\' :: k.name.toList ++ '[' :: (s.chars ++ ']' :: '{' :: (t.chars ++ ['}'])))

theorem text_document : (document id k s t).text =
    '\\' :: k.name.toList ++ '[' :: (s.chars ++ ']' :: '{' :: (t.unified.chars ++ ['}'])) := by
  have hbreak : '\n' ∉ '\\' :: k.name.toList ++ '[' :: (s.chars ++ [']']) := by
    have hname : '\n' ∉ k.name.toList := by cases k <;> decide
    simp [hname, s.no_break]
  have hunify := Text.unifyBreaks_append hbreak
    (show ∀ ds, '{' :: (t.chars ++ ['}']) ≠ '\n' :: ds by simp)
  have hbrace : Text.unifyBreaks ('{' :: (t.chars ++ ['}'])) =
      '{' :: (t.unified.chars ++ ['}']) := by
    rw [GroupedText.unified, ← Text.unifyBreaks_concat]
    simp [Text.unifyBreaks]
  rw [hbrace] at hunify
  simpa [document, Buffer.ofText, Buffer.holding] using hunify

theorem clean_ne_nil : Title.clean t.chars ≠ [] := by
  rw [Title.clean_of_notMem t.no_backslash t.no_percent]
  have hfilled := t.filled
  rw [Text.isAllBlank, List.all_eq_false] at hfilled
  obtain ⟨c, hc, hblank⟩ := hfilled
  exact Text.collapse_ne_nil hc (by simpa using hblank)

/-- A heading with a short title is found, and its title is read exactly if the brackets of
the short title are balanced or the short title holds the same title behind a bracket. -/
theorem heading_behind_shortTitle_iff {level : Nat} (hlevel : k.level? = some level) :
    ∃ o, Occurrence.scan (document id k s t) = [o] ∧
      (o.entry (.ofBuffer (document id k s t)) =
          .ok (.heading ⟨String.ofList (Title.clean t.chars), level, .start, id⟩) ↔
        Delimiter.bracket.isBalanced 0 s.chars = true ∨
          HasTitle s.chars (Title.clean t.chars)) := by
  have htext := text_document id k s t
  have hnotMem : ∀ c ∈ s.chars ++ ']' :: '{' :: (t.unified.chars ++ ['}']), c ≠ '\\' ∧ c ≠ '%' := by
    intro c hc
    simp only [List.mem_append, List.mem_cons, List.not_mem_nil, or_false] at hc
    rcases hc with hc | rfl | rfl | hc | rfl
    · exact ⟨fun h => s.no_backslash (h ▸ hc), fun h => s.no_percent (h ▸ hc)⟩
    · decide
    · decide
    · exact ⟨fun h => t.unified.no_backslash (h ▸ hc), fun h => t.unified.no_percent (h ▸ hc)⟩
    · decide
  have hesc := fun h => (hnotMem '\\' h).1 rfl
  have hcom := fun h => (hnotMem '%' h).2 rfl
  refine ⟨.leading k '[', ?_, ?_⟩
  · have hrest := Occurrence.scanFrom_of_notMem hesc
      (Position.start.afterAll ('\\' :: k.name.toList ++ ['['])) []
    rw [List.append_nil] at hrest
    rw [Occurrence.scan_leading (Or.inr rfl) htext, hrest]
    rfl
  · have hreading := Occurrence.reading_eq_heading_iff (b := document id k s t)
      (show (Occurrence.leading k '[').keyword.level? = some level from hlevel) (clean_ne_nil t)
    rw [Occurrence.entry_ofBuffer, Except.ok.injEq]
    refine hreading.trans ?_
    rw [Occurrence.title_leading_iff htext hesc hcom, ← t.clean_unified]
    exact s.hasTitle_append_iff t.unified

/-- A short title with balanced brackets inside and outside its braces. -/
def bracketed : ShortTitle where
  chars := "{[a]} [b]".toList
  no_backslash := by decide
  no_percent := by decide
  balanced := by decide
  no_break := by decide

/-- A title on two lines. -/
def twoLines : FullTitle where
  chars := "one\r\n{two}".toList
  no_backslash := by decide
  no_percent := by decide
  balanced := by decide
  filled := by decide

theorem heading_behind_bracketed :
    ∃ o, Occurrence.scan (document ⟨"main.tex"⟩ .section bracketed twoLines) = [o] ∧
      o.entry (.ofBuffer (document ⟨"main.tex"⟩ .section bracketed twoLines)) =
        .ok (.heading ⟨"one {two}", 3, .start, ⟨"main.tex"⟩⟩) := by
  obtain ⟨o, hscan, hentry⟩ := heading_behind_shortTitle_iff ⟨"main.tex"⟩ .section bracketed
    twoLines (show Keyword.section.level? = some 3 from rfl)
  have htitle : String.ofList (Title.clean twoLines.chars) = "one {two}" := by decide
  rw [htitle] at hentry
  exact ⟨o, hscan, hentry.2 (Or.inl (by decide))⟩

/-- The characters of a text outside its brace groups, where `n` groups are open. -/
def outsideGroups : Nat → List Char → List Char
  | _, [] => []
  | n, c :: cs =>
    if n = 0 ∧ c ≠ '{' then c :: outsideGroups n cs
    else outsideGroups (Delimiter.brace.depthAfter (.first c) n) cs

/-- A short title that is one group with a closing bracket in it. -/
def guarded : ShortTitle where
  chars := "{]}".toList
  no_backslash := by decide
  no_percent := by decide
  balanced := by decide
  no_break := by decide

/-- A bracket inside braces closes the short title, and the heading is lost. -/
theorem guarded_bracket_closes :
    Delimiter.bracket.isBalanced 0 (outsideGroups 0 guarded.chars) = true ∧
      (Source.ofBuffer (document ⟨"main.tex"⟩ .section guarded twoLines)).entries =
        .ok [.rejected] := by
  refine ⟨by decide, ?_⟩
  rw [Source.entries_ofBuffer, Except.ok.injEq]
  decide +kernel

end ShortTitle
end Sectioning
