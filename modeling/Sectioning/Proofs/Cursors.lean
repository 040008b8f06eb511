/-
Where the steps of a cursor lead.

`Cursor.On b c` says that the cursor stands in the buffer `b` where it claims to
stand.  Every step keeps this, and a step forward leads to a later place.  A
cursor on an octet that begins a character stands between characters, and so
does the cursor one step after a character of one byte.  This is all that is
needed to cut the argument of a command out of the text.

The second half describes steps by characters instead of octets: `Cursor.before`
is the cursor on the first octet of a character, and a reader inside a group
passes a whole character at a time.
-/
import Sectioning.Proofs.Nesting
import Sectioning.Proofs.Places

namespace Sectioning
namespace Cursor

/-- The octet under the cursor, the rest of its line and the lines below are
those of `b`. -/
def On (b : Buffer) (c : Cursor) : Prop :=
  ∃ l, b.lines.drop c.position.row = l :: c.below ∧
    (Text.octets l).drop c.position.column = c.octet :: c.rest

/-- The cursor on the first octet of `c`, with `cs` after it on its line. -/
def before (p : Position) (c : Char) (cs : List Char) (below : List (List Char)) : Cursor :=
  ⟨p, .first c, Text.laterOctets c ++ Text.octets cs, below⟩

/-- The cursor before `cs` on a line, or, at the end of the line, on the next line
that holds more than blanks. -/
def before? (p : Position) : List Char → List (List Char) → Option Cursor
  | c :: cs, below => some (before p c cs below)
  | [], below => firstFilled? (p.row + 1) below

end Cursor

namespace Buffer

theorem cursorAt?_eq_some_iff {b : Buffer} {p : Position} {c : Cursor} :
    b.cursorAt? p = some c ↔ c.position = p ∧ c.On b := by
  unfold cursorAt? Cursor.On
  constructor
  · intro h
    split at h
    · cases h
    · next l below hl =>
      split at h
      · cases h
      · next o rest ho =>
        cases h
        exact ⟨rfl, l, hl, ho⟩
  · rintro ⟨rfl, l, hl, ho⟩
    rw [hl]
    simp only [ho]

theorem Splits.cursorAt? {b : Buffer} {p : Position} {ch : Char} {us vs l : List Char}
    {ls : List (List Char)} (h : b.Splits p us (ch :: vs)) (hch : ch ≠ '\n')
    (hl : Text.lines vs = l :: ls) : b.cursorAt? p = some (.before p ch l ls) := by
  rw [cursorAt?_eq_some_iff]
  refine ⟨rfl, _, h.drop_lines (Text.lines_cons hch hl), ?_⟩
  show (Text.octets _).drop p.column = _
  rw [h.column_eq, Text.drop_octets]
  rfl

end Buffer

namespace Cursor

variable {b : Buffer} {c d : Cursor}

/-! ## Steps stay on the buffer -/

/-- The first line that holds more than blanks, and the blank lines above it. -/
theorem firstFilled?_eq_some {row : Nat} {ls : List (List Char)}
    (h : firstFilled? row ls = some c) :
    ∃ n ch cs, (∀ l ∈ ls.take n, Text.isAllBlank l = true) ∧
      ls.drop n = (ch :: cs) :: c.below ∧ Text.isAllBlank (ch :: cs) = false ∧
      c = before ⟨row + n, 0⟩ ch cs c.below := by
  fun_induction firstFilled? row ls with
  | case1 => cases h
  | case2 row ls ih =>
    obtain ⟨n, ch, cs, hblank, hdrop, hfilled, hc⟩ := ih h
    refine ⟨n + 1, ch, cs, ?_, hdrop, hfilled, ?_⟩
    · intro l hl
      rw [List.take_succ_cons, List.mem_cons] at hl
      rcases hl with rfl | hl
      · rfl
      · exact hblank l hl
    · rw [hc, before, Nat.add_assoc, Nat.add_comm 1 n]
      rfl
  | case3 row ch' cs' ls hall ih =>
    obtain ⟨n, ch, cs, hblank, hdrop, hfilled, hc⟩ := ih h
    refine ⟨n + 1, ch, cs, ?_, hdrop, hfilled, ?_⟩
    · intro l hl
      rw [List.take_succ_cons, List.mem_cons] at hl
      rcases hl with rfl | hl
      · exact hall
      · exact hblank l hl
    · rw [hc, before, Nat.add_assoc, Nat.add_comm 1 n]
      rfl
  | case4 row ch cs ls hall =>
    cases h
    exact ⟨0, ch, cs, by simp, rfl, by simpa using hall, rfl⟩

theorem On.drop_succ_row (hc : c.On b) : b.lines.drop (c.position.row + 1) = c.below := by
  obtain ⟨l, hl, -⟩ := hc
  rw [← List.drop_drop, hl, List.drop_succ_cons, List.drop_zero]

theorem On.nextLine? (hc : c.On b) (h : c.nextLine? = some d) :
    d.On b ∧ d.position.column = 0 ∧ c.position.row < d.position.row ∧
      ∃ ch, d.octet = .first ch := by
  obtain ⟨n, ch, cs, -, hdrop, -, hd⟩ := firstFilled?_eq_some h
  have hrow : d.position = ⟨c.position.row + 1 + n, 0⟩ := by rw [hd]; rfl
  have hoctet : d.octet = .first ch := by rw [hd]; rfl
  have hrest : d.rest = Text.laterOctets ch ++ Text.octets cs := by rw [hd]; rfl
  refine ⟨⟨ch :: cs, ?_, ?_⟩, by rw [hrow], by rw [hrow]; show _ < _ + 1 + n; omega, ch, hoctet⟩
  · rw [hrow]
    show b.lines.drop (c.position.row + 1 + n) = _
    rw [← List.drop_drop, hc.drop_succ_row, hdrop]
  · rw [hrow, hoctet, hrest]
    rfl

theorem On.advance? (hc : c.On b) (h : c.advance? = some d) :
    d.On b ∧ c.position < d.position := by
  unfold Cursor.advance? at h
  split at h
  · next o rest hr =>
    cases h
    obtain ⟨l, hl, ho⟩ := hc
    refine ⟨⟨l, hl, ?_⟩, Or.inr ⟨rfl, Nat.lt_succ_self _⟩⟩
    show (Text.octets l).drop (c.position.column + 1) = o :: rest
    rw [← List.drop_drop, ho, hr, List.drop_succ_cons, List.drop_zero]
  · obtain ⟨hon, -, hrow, -⟩ := hc.nextLine? h
    exact ⟨hon, Or.inl hrow⟩

theorem On.advanceBy? {n : Nat} (hc : c.On b) (h : Cursor.advanceBy? n c = some d) :
    d.On b ∧ c.position ≤ d.position := by
  induction n generalizing c with
  | zero =>
    cases h
    exact ⟨hc, Or.inr ⟨rfl, Nat.le_refl _⟩⟩
  | succ n ih =>
    obtain ⟨e, he, hd⟩ := Option.bind_eq_some_iff.1 h
    obtain ⟨hon, hlt⟩ := hc.advance? he
    obtain ⟨hon', hle⟩ := ih hon hd
    refine ⟨hon', ?_⟩
    rw [Position.lt_iff] at hlt
    rw [Position.le_iff] at hle ⊢
    omega

theorem On.onward? (hc : c.On b) (h : c.onward? = some d) :
    d.On b ∧ c.position < d.position := by
  unfold Cursor.onward? at h
  split at h
  · obtain ⟨e, he, hd⟩ := Option.bind_eq_some_iff.1 h
    obtain ⟨hon, hlt⟩ := hc.advance? he
    obtain ⟨hon', hlt'⟩ := hon.advance? hd
    refine ⟨hon', ?_⟩
    rw [Position.lt_iff] at hlt hlt' ⊢
    omega
  · split at h
    · obtain ⟨hon, -, hrow, -⟩ := hc.nextLine? h
      exact ⟨hon, Or.inl hrow⟩
    · exact hc.advance? h

theorem On.skipBlank? (hc : c.On b) (h : c.skipBlank? = some d) : d.On b := by
  fun_induction Cursor.skipBlank? c with
  | case1 c _ =>
    cases h
    exact hc
  | case2 => cases h
  | case3 c e he _ ih => exact ih (hc.nextLine? he).1 h
  | case4 => cases h
  | case5 c ch _ _ _ e he ih => exact ih (hc.advanceBy? he).1 h
  | case6 c ch hch =>
    cases h
    exact hc

/-- A group closes at a delimiter of its kind, at or after the cursor. -/
theorem On.findClose? {k : Delimiter} {n : Counts} (hc : c.On b)
    (h : Cursor.findClose? k n c = some d) :
    d.On b ∧ d.octet = .first k.closer ∧ c.position ≤ d.position := by
  fun_induction Cursor.findClose? k n c with
  | case1 n c hclose =>
    cases h
    exact ⟨hc, hclose.1, Or.inr ⟨rfl, Nat.le_refl _⟩⟩
  | case2 => cases h
  | case3 n c _ e he ih =>
    obtain ⟨hon, hlt⟩ := hc.onward? he
    obtain ⟨hon', hoctet, hle⟩ := ih hon h
    refine ⟨hon', hoctet, ?_⟩
    rw [Position.lt_iff] at hlt
    rw [Position.le_iff] at hle ⊢
    omega

theorem On.matchClose? {k : Delimiter} {n : Nat} (hc : c.On b)
    (h : Cursor.matchClose? k n c = some d) :
    d.On b ∧ d.octet = .first k.closer ∧ c.position ≤ d.position := by
  rw [← findClose?_eq_matchClose? (Counts.get_only k n)] at h
  exact hc.findClose? h

/-! ## Places between characters -/

theorem On.isBetween {ch : Char} (hc : c.On b) (h : c.octet = .first ch) :
    b.IsBetween c.position := by
  obtain ⟨l, hl, ho⟩ := hc
  rw [h] at ho
  obtain ⟨us, vs, rfl, hcol, -⟩ := Text.exists_of_drop_octets ho
  exact ⟨us, ch :: vs, Buffer.line?_of_drop_lines hl, hcol⟩

/-- After a character of one byte stands the first octet of another. -/
theorem On.exists_first_of_advance? {ch : Char} (hc : c.On b) (h : c.octet = .first ch)
    (hsize : ch.utf8Size = 1) (hd : c.advance? = some d) : ∃ ch', d.octet = .first ch' := by
  obtain ⟨l, hl, ho⟩ := id hc
  rw [h] at ho
  obtain ⟨us, vs, -, -, hrest⟩ := Text.exists_of_drop_octets ho
  rw [Text.laterOctets_of_utf8Size hsize, List.nil_append] at hrest
  unfold Cursor.advance? at hd
  split at hd
  · next o rest hr =>
    cases hd
    cases vs with
    | nil => rw [hrest] at hr; cases hr
    | cons ch' vs =>
      rw [hrest, Text.octets, List.cons.injEq] at hr
      exact ⟨ch', hr.1.symm⟩
  · exact (hc.nextLine? hd).2.2.2

/-! ## Reading by characters -/

theorem skipBlank?_later (h : c.octet = .later) : c.skipBlank? = some c := by
  unfold skipBlank?
  simp only [h]

theorem skipBlank?_first {ch : Char} (h : c.octet = .first ch) :
    c.skipBlank? = if ch = '%' then c.nextLine?.bind skipBlank?
      else if isBlank ch then (advanceBy? ch.utf8Size c).bind skipBlank? else some c := by
  rw [skipBlank?]
  split
  · next hlater => rw [h] at hlater; cases hlater
  · next ch' hch' =>
    rw [h, Octet.first.injEq] at hch'
    subst hch'
    split
    · split
      · next hnone => rw [hnone, Option.bind_none]
      · next d hd => rw [hd, Option.bind_some]
    · split
      · split
        · next hnone => rw [hnone, Option.bind_none]
        · next d hd => rw [hd, Option.bind_some]
      · rfl

theorem onward?_eq_advance? (hesc : c.octet ≠ .first '\\') (hcom : c.octet ≠ .first '%') :
    c.onward? = c.advance? := by
  rw [onward?, if_neg hesc, if_neg hcom]

theorem matchClose?_later {k : Delimiter} {n : Nat} (h : c.octet = .later) :
    matchClose? k n c = c.advance?.bind (matchClose? k n) := by
  rw [matchClose?_eq, if_neg (by simp [h]), onward?_eq_advance? (by simp [h]) (by simp [h])]
  simp [Delimiter.depthAfter, h]

/-- A reader inside a group passes the further octets of a character. -/
theorem bind_matchClose?_later {k : Delimiter} {n m : Nat} {more : List Octet}
    (h : c.rest = List.replicate m .later ++ more) :
    c.advance?.bind (matchClose? k n) = (advanceBy? (m + 1) c).bind (matchClose? k n) := by
  induction m generalizing c with
  | zero =>
    rw [advanceBy?]
    cases c.advance? with
    | none => rfl
    | some d => rfl
  | succ m ih =>
    have hstep : c.advance? = some ⟨⟨c.position.row, c.position.column + 1⟩, .later,
        List.replicate m .later ++ more, c.below⟩ := by
      rw [advance?, h]
      rfl
    rw [advanceBy?, hstep, Option.bind_some, Option.bind_some, matchClose?_later rfl]
    exact ih rfl

theorem advanceBy?_of_rest {os rest : List Octet} {o : Octet} (h : c.rest = os ++ o :: rest) :
    advanceBy? (os.length + 1) c =
      some ⟨⟨c.position.row, c.position.column + (os.length + 1)⟩, o, rest, c.below⟩ := by
  induction os generalizing c with
  | nil =>
    rw [List.length_nil, advanceBy?, advance?, h]
    rfl
  | cons o' os ih =>
    have hstep : c.advance? = some ⟨⟨c.position.row, c.position.column + 1⟩, o',
        os ++ o :: rest, c.below⟩ := by
      rw [advance?, h]
      rfl
    rw [List.length_cons, advanceBy?, hstep, Option.bind_some, ih rfl]
    simp only [Option.some.injEq, Cursor.mk.injEq, Position.mk.injEq, true_and, and_true]
    omega

theorem advanceBy?_of_end (c : Cursor) :
    advanceBy? (c.rest.length + 1) c = firstFilled? (c.position.row + 1) c.below := by
  generalize hn : c.rest.length = n
  induction n generalizing c with
  | zero =>
    have hnil : c.rest = [] := List.length_eq_zero_iff.1 hn
    rw [advanceBy?, advance?, hnil]
    show (firstFilled? _ _).bind some = _
    rw [Option.bind_fun_some]
  | succ n ih =>
    cases hr : c.rest with
    | nil => rw [hr] at hn; cases hn
    | cons o rest =>
      rw [hr, List.length_cons, Nat.succ.injEq] at hn
      have hstep : c.advance? = some ⟨⟨c.position.row, c.position.column + 1⟩, o, rest,
          c.below⟩ := by
        rw [advance?, hr]
      rw [advanceBy?, hstep, Option.bind_some]
      exact ih _ hn

theorem advanceBy?_before (p : Position) (ch : Char) (cs : List Char)
    (below : List (List Char)) :
    advanceBy? ch.utf8Size (before p ch cs below) =
      before? ⟨p.row, p.column + ch.utf8Size⟩ cs below := by
  have hpos := ch.utf8Size_pos
  have hlen : (Text.laterOctets ch).length + 1 = ch.utf8Size := by
    rw [Text.length_laterOctets]
    omega
  cases cs with
  | nil =>
    have h := advanceBy?_of_end (before p ch [] below)
    have hrest : (before p ch [] below).rest.length = (Text.laterOctets ch).length := by
      simp [before, Text.octets]
    rw [hrest, hlen] at h
    exact h
  | cons ch' cs =>
    have h := @advanceBy?_of_rest (before p ch (ch' :: cs) below) (Text.laterOctets ch)
      (Text.laterOctets ch' ++ Text.octets cs) (.first ch') rfl
    rw [hlen] at h
    exact h

theorem matchClose?_char {k : Delimiter} {n : Nat} {ch : Char} (hesc : ch ≠ '\\')
    (hcom : ch ≠ '%') (hclose : ¬ (ch = k.closer ∧ n = 0)) (p : Position) (cs : List Char)
    (below : List (List Char)) :
    matchClose? k n (before p ch cs below) =
      (before? ⟨p.row, p.column + ch.utf8Size⟩ cs below).bind
        (matchClose? k (k.depthAfter (.first ch) n)) := by
  have hpos := ch.utf8Size_pos
  have hstep := @bind_matchClose?_later (before p ch cs below) k (k.depthAfter (.first ch) n)
    (ch.utf8Size - 1) (Text.octets cs) rfl
  rw [Nat.sub_add_cancel hpos, advanceBy?_before] at hstep
  rw [matchClose?_eq, if_neg (by simpa [before] using hclose),
    onward?_eq_advance? (by simpa [before] using hesc) (by simpa [before] using hcom)]
  exact hstep

theorem matchClose?_close (k : Delimiter) (p : Position) (cs : List Char)
    (below : List (List Char)) :
    matchClose? k 0 (before p k.closer cs below) = some (before p k.closer cs below) := by
  rw [matchClose?_eq, if_pos ⟨rfl, rfl⟩]

/-- A backslash takes the character after it along. -/
theorem matchClose?_escape (k : Delimiter) (n : Nat) (p : Position) (ch : Char) (cs : List Char)
    (below : List (List Char)) :
    matchClose? k n (before p '\\' (ch :: cs) below) =
      (before? ⟨p.row, p.column + 1 + ch.utf8Size⟩ cs below).bind (matchClose? k n) := by
  have hpos := ch.utf8Size_pos
  have hclose : ¬ ((before p '\\' (ch :: cs) below).octet = .first k.closer ∧ n = 0) := by
    cases k <;> simp [before, Delimiter.closer]
  have hdepth : k.depthAfter (before p '\\' (ch :: cs) below).octet n = n := by
    cases k <;> simp [before, Delimiter.depthAfter, Delimiter.closer, Delimiter.opener]
  have honward : (before p '\\' (ch :: cs) below).onward? =
      (before ⟨p.row, p.column + 1⟩ ch cs below).advance? := by
    rw [onward?, if_pos (show (before p '\\' (ch :: cs) below).octet = .first '\\' from rfl)]
    rfl
  have hstep := @bind_matchClose?_later (before ⟨p.row, p.column + 1⟩ ch cs below) k n
    (ch.utf8Size - 1) (Text.octets cs) rfl
  rw [Nat.sub_add_cancel hpos, advanceBy?_before] at hstep
  rw [matchClose?_eq, if_neg hclose, hdepth, honward, hstep]

end Cursor
end Sectioning
