/-
Reading one printed command.

Escaped text holds no command and closes no group, so scanning a printed command
finds that command alone (`scanFrom_command`), and reading it gives back its title
(`reading_command`).  `reading_of_title` says the same of any reader that comes to
the brace of a printed title.
-/
import Sectioning.Proofs.Blanks
import Sectioning.Proofs.Entries
import Sectioning.Proofs.Forms
import Sectioning.Proofs.Manuscript
import Sectioning.Proofs.Titles

namespace Sectioning
namespace Manuscript

/-! ## Escaped text -/

theorem escape_of_notMem {cs : List Char} (h : '%' ∉ cs) : escape cs = cs := by
  induction cs with
  | nil => rfl
  | cons c cs ih =>
    rw [List.mem_cons, not_or] at h
    rw [escape, if_neg (Ne.symm h.1), ih h.2]

theorem mem_escape {cs : List Char} {c : Char} (h : c ∈ escape cs) : c = '\\' ∨ c ∈ cs := by
  induction cs with
  | nil => cases h
  | cons d ds ih =>
    unfold escape at h
    split at h
    · next hd =>
      rw [List.mem_cons, List.mem_cons] at h
      rcases h with h | h | h
      · exact Or.inl h
      · exact Or.inr (by rw [h, hd]; exact List.mem_cons_self)
      · exact (ih h).imp id (List.mem_cons_of_mem d)
    · rw [List.mem_cons] at h
      rcases h with rfl | h
      · exact Or.inr List.mem_cons_self
      · exact (ih h).imp id (List.mem_cons_of_mem d)

theorem uncomment_escape {cs : List Char} (h : '\\' ∉ cs) :
    Title.uncomment false (escape cs) = cs := by
  induction cs with
  | nil => rfl
  | cons c cs ih =>
    rw [List.mem_cons, not_or] at h
    by_cases hc : c = '%'
    · subst hc
      rw [escape, if_pos rfl, Title.uncomment_escaped_percent, ih h.2]
    · rw [escape, if_neg hc, Title.uncomment_of_ne (Ne.symm h.1) hc, ih h.2]

/-- Scanning passes over escaped text. -/
theorem scanFrom_escape {cs : List Char} (h : '\\' ∉ cs) (p : Position) (vs : List Char) :
    Occurrence.scanFrom 0 p (escape cs ++ vs) =
      Occurrence.scanFrom 0 (p.afterAll (escape cs)) vs := by
  induction cs generalizing p with
  | nil => rfl
  | cons c cs ih =>
    rw [List.mem_cons, not_or] at h
    by_cases hc : c = '%'
    · subst hc
      have hnone : Occurrence.formAt? ('\\' :: '%' :: (escape cs ++ vs)) = none := by
        rw [Occurrence.formAt?, Occurrence.keywordAt?_percent]
        rfl
      rw [escape, if_pos rfl, List.cons_append, List.cons_append,
        Occurrence.scanFrom_of_formAt?_eq_none hnone,
        Occurrence.scanFrom_of_formAt?_eq_none (Occurrence.formAt?_of_ne (by decide) _), ih h.2,
        Position.afterAll_cons, Position.afterAll_cons]
    · rw [escape, if_neg hc, List.cons_append,
        Occurrence.scanFrom_of_formAt?_eq_none (Occurrence.formAt?_of_ne (Ne.symm h.1) _), ih h.2,
        Position.afterAll_cons]

/-- A reader inside a group passes escaped text whose groups are balanced. -/
theorem matchClose?_escaped {k : Delimiter} {n : Nat} {cs : List Char} (hesc : '\\' ∉ cs)
    (hbal : k.isBalanced n cs = true) (p : Position) (xs : List Char)
    (below : List (List Char)) :
    (Cursor.before? p (escape cs ++ k.closer :: xs) below).bind (Cursor.matchClose? k n) =
      some (.before ⟨p.row, p.column + Text.byteLength (escape cs)⟩ k.closer xs below) := by
  induction cs generalizing n p with
  | nil =>
    have hn : n = 0 := by simpa [Delimiter.isBalanced] using hbal
    subst hn
    exact Cursor.matchClose?_close k p xs below
  | cons c cs ih =>
    rw [List.mem_cons, not_or] at hesc
    by_cases hc : c = '%'
    · subst hc
      have hrest : k.isBalanced n cs = true := by
        cases k <;> simpa [Delimiter.isBalanced, Delimiter.closer, Delimiter.opener] using hbal
      rw [escape, if_pos rfl]
      show Cursor.matchClose? k n (.before p '\\' ('%' :: (escape cs ++ k.closer :: xs)) below) = _
      rw [Cursor.matchClose?_escape, ih hesc.2 hrest]
      simp only [Text.byteLength_cons, show Char.utf8Size '%' = 1 from rfl,
        show Char.utf8Size '\\' = 1 from rfl, Nat.add_assoc]
    · have hclose : ¬ (c = k.closer ∧ n = 0) := by
        rintro ⟨rfl, rfl⟩
        rw [Delimiter.isBalanced_close] at hbal
        cases hbal
      rw [Delimiter.isBalanced_cons hclose] at hbal
      rw [escape, if_neg hc]
      show Cursor.matchClose? k n (.before p c (escape cs ++ k.closer :: xs) below) = _
      rw [Cursor.matchClose?_char (Ne.symm hesc.1) hc hclose, ih hesc.2 hbal]
      simp only [Text.byteLength_cons, Nat.add_assoc]

namespace TitleText

variable (t : TitleText)

theorem no_break : '\n' ∉ escape t.chars := by
  intro h
  rcases mem_escape h with h | h
  · exact absurd h (by decide)
  · exact Text.notMem_of_collapse_eq t.collapsed (by decide) (by decide) h

theorem clean_escape : Title.clean (escape t.chars) = t.chars := by
  rw [Title.clean, uncomment_escape t.no_backslash, t.collapsed]

end TitleText

theorem isBalanced_of_notMem {k : Delimiter} {cs : List Char} (hopener : k.opener ∉ cs)
    (hcloser : k.closer ∉ cs) : k.isBalanced 0 cs = true := by
  induction cs with
  | nil => rfl
  | cons c cs ih =>
    rw [List.mem_cons, not_or] at hopener hcloser
    rw [Delimiter.isBalanced, if_neg (Ne.symm hcloser.1), if_neg (Ne.symm hopener.1)]
    exact ih hopener.2 hcloser.2

theorem toNat_of_isAlphanum {c : Char} (h : c.isAlphanum = true) :
    48 ≤ c.toNat ∧ c.toNat ≤ 57 ∨ 65 ≤ c.toNat ∧ c.toNat ≤ 90 ∨
      97 ≤ c.toNat ∧ c.toNat ≤ 122 := by
  change (decide (c.val ≥ 'A'.val ∧ c.val ≤ 'Z'.val) ||
    (decide (c.val ≥ 'a'.val) && decide (c.val ≤ 'z'.val)) ||
    (decide (c.val ≥ '0'.val) && decide (c.val ≤ '9'.val))) = true at h
  simp only [Bool.or_eq_true, Bool.and_eq_true, decide_eq_true_eq, ge_iff_le,
    UInt32.le_iff_toNat_le, Char.reduceVal, UInt32.reduceToNat, Char.toNat_val] at h
  omega

theorem isBlank_of_isAlphanum {c : Char} (h : c.isAlphanum = true) : isBlank c = false := by
  have hc := toNat_of_isAlphanum h
  simp only [isBlank, Bool.or_eq_false_iff, Bool.and_eq_false_iff, decide_eq_false_iff_not,
    beq_eq_false_iff_ne]
  omega

theorem ne_of_isAlphanum {x c : Char} (hx : x.isAlphanum = true) (hc : c.isAlphanum = false) :
    x ≠ c := by
  rintro rfl
  rw [hx] at hc
  cases hc

theorem notMem_singleton_of_isAlphanum {x c : Char} (hx : x.isAlphanum = true)
    (hc : c.isAlphanum = false) : c ∉ [x] := by
  rw [List.mem_singleton]
  exact Ne.symm (ne_of_isAlphanum hx hc)

/-- A title of one letter or digit. -/
def TitleText.single (x : Char) (hx : x.isAlphanum = true) : TitleText where
  chars := [x]
  ne_nil := List.cons_ne_nil x []
  collapsed := Text.collapse_of_no_blank fun c hc => by
    rw [List.mem_singleton.1 hc]
    exact isBlank_of_isAlphanum hx
  no_backslash := notMem_singleton_of_isAlphanum hx (by decide)
  balanced := isBalanced_of_notMem (notMem_singleton_of_isAlphanum hx (by decide))
    (notMem_singleton_of_isAlphanum hx (by decide))

/-! ## One command -/

namespace Style

def star : Style → List Char
  | plain => []
  | starred => ['*']
  | short _ => []

/-- The delimiter that a form ends in. -/
def delimiter : Style → Char
  | plain => '{'
  | starred => '{'
  | short _ => '['

/-- What stands between the end of a form and the title. -/
def shortPart : Style → List Char
  | plain => []
  | starred => []
  | short s => s.chars ++ [']', '{']

theorem delimiter_cases (style : Style) : style.delimiter = '{' ∨ style.delimiter = '[' := by
  cases style with
  | plain => exact Or.inl rfl
  | starred => exact Or.inl rfl
  | short s => exact Or.inr rfl

theorem no_break_shortPart (style : Style) : '\n' ∉ style.shortPart := by
  cases style with
  | plain => exact List.not_mem_nil
  | starred => exact List.not_mem_nil
  | short s => simpa [shortPart] using s.no_break

theorem no_backslash_shortPart (style : Style) : '\\' ∉ style.shortPart := by
  cases style with
  | plain => exact List.not_mem_nil
  | starred => exact List.not_mem_nil
  | short s => simpa [shortPart] using s.no_backslash

end Style

/-- The form of a printed command without its delimiter. -/
def lead (k : Keyword) (style : Style) : List Char :=
  '\\' :: (k.name.toList ++ style.star)

/-- The form of a printed command. -/
def form (k : Keyword) (style : Style) : List Char :=
  lead k style ++ [style.delimiter]

theorem command_eq (k : Keyword) (style : Style) (cs : List Char) :
    command k style cs = form k style ++ (style.shortPart ++ (escape cs ++ ['}'])) := by
  cases style <;>
    simp [command, form, lead, Style.print, Style.star, Style.delimiter, Style.shortPart]

theorem formAt?_form (k : Keyword) (style : Style) (vs : List Char) :
    Occurrence.formAt? (form k style ++ vs) = some (k, form k style) := by
  have hcons : form k style ++ vs =
      '\\' :: (k.name.toList ++ (style.star ++ style.delimiter :: vs)) := by
    simp [form, lead]
  rw [hcons, Occurrence.formAt?_command]
  cases style with
  | plain =>
    show Option.map _ (Occurrence.ending? ('{' :: vs)) = _
    rw [Occurrence.ending?_brace]
    simp [form, lead, Style.star, Style.delimiter]
  | starred =>
    show Option.map _ (Occurrence.ending? ('*' :: '{' :: vs)) = _
    rw [Occurrence.ending?_star_brace]
    simp [form, lead, Style.star, Style.delimiter]
  | short s =>
    show Option.map _ (Occurrence.ending? ('[' :: vs)) = _
    rw [Occurrence.ending?_bracket]
    simp [form, lead, Style.star, Style.delimiter]

theorem isReported_form (k : Keyword) (style : Style) :
    Occurrence.isReported k (form k style) = true := by
  have hlast : (form k style).getLast? = some style.delimiter := by
    rw [form, List.getLast?_concat]
  have hne : (some style.delimiter == some '%') = false := by
    cases style <;> rfl
  rw [Occurrence.isReported, hlast, hne, Bool.and_false]
  rfl

theorem no_break_form (k : Keyword) (style : Style) : '\n' ∉ form k style := by
  cases k <;> cases style <;> simp [form, lead, Keyword.name, Style.star, Style.delimiter]

theorem no_break_command (k : Keyword) (style : Style) (t : TitleText) :
    '\n' ∉ command k style t.chars := by
  rw [command_eq]
  simp only [List.mem_append, not_or]
  exact ⟨no_break_form k style, style.no_break_shortPart, t.no_break, by decide⟩

theorem afterAll_command (k : Keyword) (style : Style) (t : TitleText) (p : Position) :
    p.afterAll (command k style t.chars ++ ['\n']) = ⟨p.row + 1, 0⟩ := by
  rw [Position.afterAll_append, Position.afterAll_of_notMem (no_break_command k style t)]
  exact Position.after_newline _

/-- The occurrence of a printed command that stands at `p`. -/
def occurrence (k : Keyword) (style : Style) (p : Position) : Occurrence :=
  ⟨k, ⟨p, p.afterAll (form k style)⟩⟩

/-- Scanning a printed command finds it and nothing else. -/
theorem scanFrom_command (k : Keyword) (style : Style) (t : TitleText) (p : Position)
    (vs : List Char) :
    Occurrence.scanFrom 0 p (command k style t.chars ++ '\n' :: vs) =
      occurrence k style p :: Occurrence.scanFrom 0 ⟨p.row + 1, 0⟩ vs := by
  have hend := afterAll_command k style t p
  rw [command_eq] at hend ⊢
  simp only [List.append_assoc, Position.afterAll_append] at hend ⊢
  rw [Occurrence.scanFrom_form (formAt?_form k style _) (isReported_form k style),
    Occurrence.scanFrom_of_notMem style.no_backslash_shortPart, scanFrom_escape t.no_backslash,
    Occurrence.scanFrom_of_notMem (by decide),
    show '\n' :: vs = ['\n'] ++ vs from rfl, Occurrence.scanFrom_of_notMem (by decide), hend]
  rfl

theorem skipBlank?_before {ch : Char} (hcom : ch ≠ '%') (hblank : isBlank ch = false)
    (p : Position) (cs : List Char) (below : List (List Char)) :
    (Cursor.before p ch cs below).skipBlank? = some (.before p ch cs below) := by
  rw [Cursor.skipBlank?_first rfl, if_neg hcom, hblank, if_neg Bool.false_ne_true]

theorem exists_close_escaped {k : Delimiter} {cs : List Char} (hesc : '\\' ∉ cs)
    (hbal : k.isBalanced 0 cs = true) (p : Position) (xs : List Char)
    (below : List (List Char)) :
    ∃ start, (Cursor.before p k.opener (escape cs ++ k.closer :: xs) below).advance? = some start ∧
      start.position = ⟨p.row, p.column + 1⟩ ∧
      start.findClose? k .zero =
        some (.before ⟨p.row, p.column + 1 + Text.byteLength (escape cs)⟩ k.closer xs below) := by
  have hclose := matchClose?_escaped hesc hbal ⟨p.row, p.column + 1⟩ xs below
  obtain ⟨c, more, hmore⟩ := List.exists_cons_of_ne_nil
    (List.append_ne_nil_of_right_ne_nil (escape cs) (List.cons_ne_nil k.closer xs))
  rw [hmore] at hclose ⊢
  refine ⟨.before ⟨p.row, p.column + 1⟩ c more below, ?_, rfl, ?_⟩
  · cases k <;> rfl
  · rw [Cursor.findClose?_zero]
    exact hclose

/-- The reader comes from the delimiter of a command to the brace of its title. -/
theorem passShortTitle?_before (style : Style) (p : Position) (cs : List Char)
    (below : List (List Char)) :
    (Cursor.before p style.delimiter (style.shortPart ++ cs) below).passShortTitle? =
      some (.before ⟨p.row, p.column + Text.byteLength style.shortPart⟩ '{' cs below) := by
  cases style with
  | plain => rfl
  | starred => rfl
  | short s =>
    obtain ⟨start, hstart, -, hclose⟩ :=
      exists_close_escaped s.no_backslash s.balanced p ('{' :: cs) below
    rw [escape_of_notMem s.no_percent] at hstart hclose
    have hcolumn : p.column + Text.byteLength (Style.short s).shortPart =
        p.column + 1 + Text.byteLength s.chars + 1 := by
      rw [Style.shortPart, Text.byteLength_append, show Text.byteLength [']', '{'] = 2 from rfl]
      omega
    have hparts : (Style.short s).shortPart ++ cs = s.chars ++ ']' :: '{' :: cs := by
      rw [Style.shortPart, List.append_assoc]
      rfl
    rw [hparts, hcolumn]
    show Option.bind (Cursor.advance? (.before p Delimiter.bracket.opener
      (s.chars ++ Delimiter.bracket.closer :: '{' :: cs) below)) _ = _
    rw [hstart, Option.bind_some, hclose, Option.bind_some]
    exact skipBlank?_before (by decide) (by decide) _ cs below

theorem bracedRange?_before (t : TitleText) (p : Position) (xs : List Char)
    (below : List (List Char)) :
    (Cursor.before p '{' (escape t.chars ++ '}' :: xs) below).bracedRange? =
      some ⟨⟨p.row, p.column + 1⟩, ⟨p.row, p.column + 1 + Text.byteLength (escape t.chars)⟩⟩ := by
  obtain ⟨start, hstart, hplace, hclose⟩ :=
    exists_close_escaped t.no_backslash t.balanced p xs below
  show Option.bind (Cursor.advance? (.before p Delimiter.brace.opener
    (escape t.chars ++ Delimiter.brace.closer :: xs) below)) _ = _
  rw [hstart, Option.bind_some, hclose, Option.map_some, hplace]
  exact congrArg some (if_pos (Or.inr ⟨rfl, Nat.le_add_right _ _⟩))

/-- A reader that comes to the opening brace of a printed title reads that title. -/
theorem reading_of_title {b : Buffer} {o : Occurrence} {q : Position} {us vs : List Char}
    {l : List Char} {ls : List (List Char)} (t : TitleText) (hgenuine : o.isGenuine b = true)
    (hstart : b.Splits ⟨q.row, q.column + 1⟩ us (escape t.chars ++ '}' :: vs))
    (hcursor : (b.cursorAt? o.delimiter).bind
      (fun c => c.skipBlank?.bind Cursor.passShortTitle?) =
        some (.before q '{' (escape t.chars ++ '}' :: l) ls)) :
    o.reading b = o.entryOf b.id t.chars := by
  have hstop := hstart.steps
  rw [Position.afterAll_of_notMem t.no_break] at hstop
  have hargument : o.argument? b = some ⟨⟨q.row, q.column + 1⟩,
      ⟨q.row, q.column + 1 + Text.byteLength (escape t.chars)⟩⟩ := by
    rw [Occurrence.argument?_eq hgenuine hcursor]
    exact bracedRange?_before t _ l ls
  rw [Occurrence.reading, hargument]
  simp only [hstart.excerpt? hstop, Option.getD_some, t.clean_escape]

/-- Reading a printed command gives back its title. -/
theorem reading_command {b : Buffer} {r : Nat} {us vs : List Char} (k : Keyword) (style : Style)
    (t : TitleText) (h : b.Splits ⟨r, 0⟩ us (command k style t.chars ++ '\n' :: vs)) :
    (occurrence k style ⟨r, 0⟩).reading b =
      (occurrence k style ⟨r, 0⟩).entryOf b.id t.chars := by
  have hbreak : '\n' ∉ style.shortPart ++ (escape t.chars ++ ['}']) := by
    simp only [List.mem_append, not_or]
    exact ⟨style.no_break_shortPart, t.no_break, by decide⟩
  have hlines := Text.lines_append_newline hbreak vs
  have hdelim : style.delimiter ≠ '\n' ∧ style.delimiter ≠ '%' ∧ style.delimiter.utf8Size = 1 ∧
      isBlank style.delimiter = false := by
    rcases style.delimiter_cases with h | h <;> rw [h] <;> decide
  have hgenuine : (occurrence k style ⟨r, 0⟩).isGenuine b = true := by
    obtain ⟨w, x, hline, -⟩ := h.isBetween
    rw [Occurrence.isGenuine, occurrence, hline, Option.any_some, Text.isGenuine]
  rw [command_eq, form, List.append_assoc, List.append_assoc, List.singleton_append] at h
  -- the places of the delimiter and of the title
  have hat := h.steps
  generalize hq : Position.afterAll ⟨r, 0⟩ (lead k style) = q at hat
  have htitle := hat.step
  rw [Position.after_of_ne _ hdelim.1, hdelim.2.2.1, List.append_assoc style.shortPart] at htitle
  have hstart := htitle.steps
  rw [Position.afterAll_of_notMem style.no_break_shortPart, List.append_assoc (escape _)] at hstart
  dsimp only at hstart
  rw [Nat.add_right_comm] at hstart
  have hcursor : (b.cursorAt? (occurrence k style ⟨r, 0⟩).delimiter).bind
      (fun c => c.skipBlank?.bind Cursor.passShortTitle?) =
        some (.before ⟨q.row, q.column + Text.byteLength style.shortPart⟩ '{'
          (escape t.chars ++ '}' :: []) (Text.lines vs)) := by
    have hplace : (occurrence k style ⟨r, 0⟩).delimiter = q := by
      rw [← hq]
      exact Occurrence.delimiter_eq rfl hdelim.1 hdelim.2.2.1
    rw [hplace, hat.cursorAt? hdelim.1 hlines, Option.bind_some,
      skipBlank?_before hdelim.2.1 hdelim.2.2.2, Option.bind_some]
    exact passShortTitle?_before style q _ _
  exact reading_of_title t hgenuine hstart hcursor

end Manuscript
end Sectioning
