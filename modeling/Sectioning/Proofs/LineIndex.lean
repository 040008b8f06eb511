/-
Offsets and places.

The rows of a buffer cut its offsets into stretches: row `k` takes those from
`rowStart k` to the end of its line, and one more is taken by the line break
(`rowStart_succ`).  So every offset up to the length of the text has a place, every
place on a line has an offset, and the order of the ones is the order of the others
(`positionAt?_eq_some_iff`, `offset?_lt_iff`).  The text between two places is what
stands between their offsets (`excerpt?_eq_cut?`), and it can be handed out exactly
if both of its ends lie on lines and between characters
(`isSome_excerpt?_between_iff`).  `lineIndex_coherent` puts these together.
-/
import Sectioning.Proofs.Places

namespace Sectioning
namespace Buffer

/-- The row of `p` is one of the buffer, and its column is at most at the end of the
line. -/
def OnLine (b : Buffer) (p : Position) : Prop :=
  p.row < b.lineCount ∧ p.column ≤ b.lineLength p.row

/-- The place `p` lies before a byte that continues a character. -/
def InsideCharacter (b : Buffer) (p : Position) : Prop :=
  ∃ l, b.line? p.row = some l ∧ (Text.octets l)[p.column]? = some .later

variable {b : Buffer} {p q : Position} {k m n : Nat} {l : List Char}

/-! ## Rows -/

theorem lineLength_eq (h : b.line? k = some l) : b.lineLength k = Text.byteLength l := by
  rw [lineLength, h]
  rfl

theorem onLine_iff : b.OnLine p ↔ ∃ l, b.line? p.row = some l ∧ p.column ≤ Text.byteLength l := by
  constructor
  · rintro ⟨hrow, hcolumn⟩
    obtain ⟨l, hl⟩ := exists_line? hrow
    exact ⟨l, hl, lineLength_eq hl ▸ hcolumn⟩
  · rintro ⟨l, hl, hcolumn⟩
    exact ⟨lt_lineCount hl, lineLength_eq hl ▸ hcolumn⟩

/-! ## From offsets to places -/

/-- Every offset before row `k` is on a row above it. -/
theorem exists_row_of_lt (hk : k ≤ b.lineCount) (hn : n < b.rowStart k) :
    ∃ row l column, b.line? row = some l ∧ column ≤ Text.byteLength l ∧
      n = b.rowStart row + column := by
  induction k with
  | zero => cases hn
  | succ k ih =>
    by_cases habove : n < b.rowStart k
    · exact ih (Nat.le_of_succ_le hk) habove
    · obtain ⟨l, hl⟩ := exists_line? hk
      rw [rowStart_succ hl] at hn
      exact ⟨k, l, n - b.rowStart k, hl, by omega, by omega⟩

theorem exists_row (hn : n ≤ Text.byteLength b.text) :
    ∃ row l column, b.line? row = some l ∧ column ≤ Text.byteLength l ∧
      n = b.rowStart row + column := by
  refine exists_row_of_lt (Nat.le_refl b.lineCount) ?_
  rw [rowStart_lineCount]
  omega

theorem positionAt?_eq_none (hn : Text.byteLength b.text < n) : b.positionAt? n = none :=
  if_pos hn

theorem isSome_positionAt?_iff : (b.positionAt? n).isSome ↔ n ≤ Text.byteLength b.text := by
  constructor
  · intro h
    by_contra hn
    rw [positionAt?_eq_none (by omega)] at h
    cases h
  · intro hn
    obtain ⟨row, l, column, hl, hcolumn, rfl⟩ := exists_row hn
    rw [positionAt?_rowStart_add hl hcolumn]
    rfl

/-! ## From places to offsets -/

/-- Offsets and places determine each other. -/
theorem positionAt?_eq_some_iff : b.positionAt? n = some p ↔ b.offset? p = some n := by
  rw [offset?_eq_some_iff]
  constructor
  · intro h
    have hn : n ≤ Text.byteLength b.text := isSome_positionAt?_iff.1 (by rw [h]; rfl)
    obtain ⟨row, l, column, hl, hcolumn, rfl⟩ := exists_row hn
    rw [positionAt?_rowStart_add hl hcolumn] at h
    cases h
    exact ⟨l, hl, hcolumn, rfl⟩
  · rintro ⟨l, hl, hcolumn, rfl⟩
    exact positionAt?_rowStart_add hl hcolumn

theorem exists_positionAt?_iff : (∃ n, b.positionAt? n = some p) ↔ b.OnLine p := by
  simp only [positionAt?_eq_some_iff, offset?_eq_some_iff, onLine_iff]
  constructor
  · rintro ⟨n, l, hl, hcolumn, -⟩
    exact ⟨l, hl, hcolumn⟩
  · rintro ⟨l, hl, hcolumn⟩
    exact ⟨_, l, hl, hcolumn, rfl⟩

theorem offset?_lt (hp : b.offset? p = some m) (hq : b.offset? q = some n) (h : p < q) :
    m < n := by
  obtain ⟨l, hl, hcolumn, rfl⟩ := offset?_eq_some_iff.1 hp
  obtain ⟨-, -, -, rfl⟩ := offset?_eq_some_iff.1 hq
  rcases Position.lt_iff.1 h with hrow | ⟨hrow, hlt⟩
  · -- the row of `q` starts behind the whole row of `p`
    have hstart : b.rowStart (p.row + 1) ≤ b.rowStart q.row := rowStart_mono hrow
    rw [rowStart_succ hl] at hstart
    omega
  · rw [hrow]
    omega

theorem offset?_lt_iff (hp : b.offset? p = some m) (hq : b.offset? q = some n) :
    m < n ↔ p < q := by
  refine ⟨fun hlt => ?_, offset?_lt hp hq⟩
  rcases Position.lt_trichotomy p q with h | rfl | h
  · exact h
  · rw [hp] at hq
    cases hq
    exact absurd hlt (Nat.lt_irrefl m)
  · exact absurd (offset?_lt hq hp h) (Nat.lt_asymm hlt)

/-! ## Stretches of text -/

theorem IsBetween.onLine (h : b.IsBetween p) : b.OnLine p := by
  obtain ⟨w, x, hline, hcolumn⟩ := h
  refine onLine_iff.2 ⟨w ++ x, hline, ?_⟩
  rw [hcolumn, Text.byteLength_append]
  omega

/-- The places between characters are those on a line where no character is cut. -/
theorem isBetween_iff : b.IsBetween p ↔ b.OnLine p ∧ ¬ b.InsideCharacter p := by
  constructor
  · intro h
    refine ⟨h.onLine, ?_⟩
    obtain ⟨w, x, hline, hcolumn⟩ := h
    rintro ⟨l, hl, hlater⟩
    rw [hline] at hl
    cases hl
    rw [← Nat.add_zero p.column, hcolumn, ← List.getElem?_drop, Text.drop_octets] at hlater
    cases x <;> cases hlater
  · rintro ⟨hon, hinside⟩
    obtain ⟨l, hl, hcolumn⟩ := onLine_iff.1 hon
    cases hoctet : (Text.octets l).drop p.column with
    | nil =>
      rw [List.drop_eq_nil_iff, Text.length_octets] at hoctet
      exact ⟨l, [], by rw [List.append_nil]; exact hl, Nat.le_antisymm hcolumn hoctet⟩
    | cons o rest =>
      cases o with
      | first d =>
        obtain ⟨w, x, rfl, hw, -⟩ := Text.exists_of_drop_octets hoctet
        exact ⟨w, d :: x, hl, hw⟩
      | later =>
        refine absurd ⟨l, hl, ?_⟩ hinside
        rw [← Nat.add_zero p.column, ← List.getElem?_drop, hoctet]
        rfl

theorem isBetween_of_offset? {us vs : List Char} (htext : b.text = us ++ vs)
    (h : b.offset? p = some (Text.byteLength us)) : b.IsBetween p := by
  have hsplit : b.Splits (Position.start.afterAll us) us vs := ⟨htext, rfl⟩
  have hplace := hsplit.positionAt?
  rw [positionAt?_eq_some_iff.2 h] at hplace
  cases hplace
  exact hsplit.isBetween

theorem isBetween_of_excerpt? {r : Range} {ws : List Char} (h : b.excerpt? r = some ws) :
    b.IsBetween r.start ∧ b.IsBetween r.stop := by
  obtain ⟨m, hm, h⟩ := Option.bind_eq_some_iff.1 h
  obtain ⟨n, hn, hcut⟩ := Option.bind_eq_some_iff.1 h
  obtain ⟨us, vs, htext, rfl, rfl⟩ := Text.exists_append_of_cut? hcut
  have hstop : b.text = us ++ ws ++ vs := by rw [htext, List.append_assoc]
  exact ⟨isBetween_of_offset? htext hm, isBetween_of_offset? hstop hn⟩

theorem isSome_excerpt?_between_iff :
    (b.excerpt? (.between p q)).isSome ↔ b.IsBetween p ∧ b.IsBetween q := by
  constructor
  · intro h
    obtain ⟨ws, hws⟩ := Option.isSome_iff_exists.1 h
    have hends := isBetween_of_excerpt? hws
    unfold Range.between at hends
    split at hends
    · exact hends
    · exact hends.symm
  · rintro ⟨hp, hq⟩
    obtain ⟨us, ws, vs, hstart, hstop⟩ := exists_splits_between hp hq
    have hws : b.excerpt? (.between p q) = some ws := hstart.excerpt? hstop
    rw [hws]
    rfl

theorem excerpt?_append {r : Position} (hp : b.IsBetween p) (hq : b.IsBetween q)
    (hr : b.IsBetween r) (hpq : p ≤ q) (hqr : q ≤ r) :
    ∃ v w, b.excerpt? ⟨p, q⟩ = some v ∧ b.excerpt? ⟨q, r⟩ = some w ∧
      b.excerpt? ⟨p, r⟩ = some (v ++ w) := by
  obtain ⟨us, _, hus⟩ := hp.exists_splits
  obtain ⟨_, _, hvs⟩ := hq.exists_splits
  obtain ⟨_, xs, hxs⟩ := hr.exists_splits
  obtain ⟨v, rfl, rfl⟩ := hus.exists_append_of_le hvs hpq
  obtain ⟨w, rfl, rfl⟩ := hvs.exists_append_of_le hxs hqr
  refine ⟨v, w, hus.excerpt? hvs, hvs.excerpt? hxs, ?_⟩
  rw [← List.append_assoc] at hus
  rw [List.append_assoc] at hxs
  exact hus.excerpt? hxs

theorem filterMap_line? (b : Buffer) : (List.range b.lineCount).filterMap b.line? = b.lines := by
  have htake : ∀ n, n ≤ b.lineCount →
      (List.range n).filterMap b.line? = b.lines.take n := by
    intro n hn
    induction n with
    | zero => rfl
    | succ n ih =>
      obtain ⟨l, hl⟩ := exists_line? hn
      rw [List.range_succ, List.filterMap_append, ih (Nat.le_of_succ_le hn), List.take_add_one]
      simp only [List.filterMap_cons, hl, List.filterMap_nil]
      rw [line?] at hl
      rw [hl]
      rfl
  rw [htake _ (Nat.le_refl _), lineCount, List.take_length]

/-- A line is the text of its span. -/
theorem line?_eq_cut? (b : Buffer) (row : Nat) :
    b.line? row = (b.lineSpan? row).bind fun span => Text.cut? span.1 span.2 b.text := by
  rw [lineSpan?_eq]
  cases hl : b.line? row with
  | none => rfl
  | some l =>
    have hline := hl
    rw [line?, b.lines_eq] at hline
    obtain ⟨us, vs, htext, hplace, hvs⟩ := exists_split_lines row (w := []) hline
    have hstart : b.rowStart row + 0 = Text.byteLength us :=
      Splits.rowStart_add_column (p := ⟨row, 0⟩) ⟨htext, hplace.symm⟩
    obtain ⟨rest, rfl⟩ : ∃ rest, vs = l ++ rest := by
      obtain ⟨-, ⟨-, rfl⟩ | ⟨cs, rfl, -⟩⟩ := Text.lines_eq_cons hvs
      · exact ⟨[], (List.append_nil vs).symm⟩
      · exact ⟨_, rfl⟩
    rw [Nat.add_zero] at hstart
    rw [Option.map_some, Option.bind_some, hstart, ← Text.byteLength_append, htext,
      ← List.append_assoc, Text.cut?_append]

theorem excerpt?_eq_cut? (hp : b.positionAt? m = some p) (hq : b.positionAt? n = some q) :
    b.excerpt? ⟨p, q⟩ = Text.cut? m n b.text := by
  rw [excerpt?, positionAt?_eq_some_iff.1 hp, Option.bind_some, positionAt?_eq_some_iff.1 hq,
    Option.bind_some]

/-- Offsets and places run through the text in the same order and determine each other, the
lines make up the text and are what stands between their starts, and a stretch of text is
what stands between the offsets of its ends.  It is handed out in full or, where an end lies
off its line or inside a character, not at all. -/
theorem lineIndex_coherent (b : Buffer) :
    (∀ n, (b.positionAt? n).isSome ↔ n ≤ Text.byteLength b.text) ∧
    (∀ p, (∃ n, b.positionAt? n = some p) ↔ b.OnLine p) ∧
    (∀ m n p q, b.positionAt? m = some p → b.positionAt? n = some q → (m < n ↔ p < q)) ∧
    (∀ n p, b.positionAt? n = some p ↔ b.offset? p = some n) ∧
    (∀ m n p q, b.positionAt? m = some p → b.positionAt? n = some q →
      b.excerpt? ⟨p, q⟩ = Text.cut? m n b.text) ∧
    ['\n'].intercalate ((List.range b.lineCount).filterMap b.line?) = b.text ∧
    (∀ row, (b.line? row).isSome ↔ row < b.lineCount) ∧
    (∀ row l, b.line? row = some l → '\n' ∉ l) ∧
    b.lineCount = b.starts.size ∧
    (∀ row, b.line? row = (b.lineSpan? row).bind fun span => Text.cut? span.1 span.2 b.text) ∧
    (∀ p q r, b.IsBetween p → b.IsBetween q → b.IsBetween r → p ≤ q → q ≤ r →
      ∃ v w, b.excerpt? ⟨p, q⟩ = some v ∧ b.excerpt? ⟨q, r⟩ = some w ∧
        b.excerpt? ⟨p, r⟩ = some (v ++ w)) ∧
    (∀ p q, b.excerpt? (.between p q) = none ↔
      (¬ b.OnLine p ∨ b.InsideCharacter p) ∨ (¬ b.OnLine q ∨ b.InsideCharacter q)) := by
  refine ⟨fun n => isSome_positionAt?_iff, fun p => exists_positionAt?_iff,
    fun m n p q hm hn => ?_, fun n p => positionAt?_eq_some_iff,
    fun m n p q hm hn => excerpt?_eq_cut? hm hn, ?_, fun row => line?_isSome_iff,
    fun row l hl => ?_, b.size_starts.symm, b.line?_eq_cut?,
    fun p q r hp hq hr hpq hqr => excerpt?_append hp hq hr hpq hqr, fun p q => ?_⟩
  · exact offset?_lt_iff (positionAt?_eq_some_iff.1 hm) (positionAt?_eq_some_iff.1 hn)
  · rw [filterMap_line?, b.lines_eq, Text.intercalate_lines]
  · have hmem : l ∈ b.lines := List.mem_of_getElem? hl
    rw [b.lines_eq] at hmem
    exact Text.notMem_of_mem_lines hmem
  · rw [← Option.not_isSome_iff_eq_none, isSome_excerpt?_between_iff, isBetween_iff,
      isBetween_iff, not_and_or, not_and_or, not_and_or, not_not, not_not]

/-- A line with a letter of two bytes, and an empty last line. -/
def accented : Buffer :=
  .ofString ⟨"main.tex"⟩ "aé\n"

theorem lineIndex_accented :
    accented.starts = #[0, 4] ∧
    accented.positionAt? 4 = some ⟨1, 0⟩ ∧ accented.positionAt? 5 = none ∧
    accented.excerpt? (.between ⟨1, 0⟩ ⟨0, 2⟩) = none ∧
    accented.excerpt? ⟨⟨0, 1⟩, ⟨1, 0⟩⟩ = Text.cut? 1 4 accented.text ∧
    ∃ v w, accented.excerpt? ⟨⟨0, 0⟩, ⟨0, 1⟩⟩ = some v ∧
      accented.excerpt? ⟨⟨0, 1⟩, ⟨1, 0⟩⟩ = some w ∧
      accented.excerpt? ⟨⟨0, 0⟩, ⟨1, 0⟩⟩ = some (v ++ w) := by
  obtain ⟨hdomain, -, -, hinverse, hcut, -, -, -, -, -, happend, hnone⟩ :=
    lineIndex_coherent accented
  have hbreak := (hinverse 4 ⟨1, 0⟩).2 (by decide +kernel)
  refine ⟨by decide +kernel, hbreak, ?_, ?_, ?_, ?_⟩
  · have hpast : ¬ 5 ≤ Text.byteLength accented.text := by decide +kernel
    exact Option.not_isSome_iff_eq_none.1 (mt (hdomain 5).1 hpast)
  · exact (hnone _ _).2 (Or.inr (Or.inr ⟨['a', 'é'], rfl, rfl⟩))
  · exact hcut _ _ _ _ ((hinverse 1 ⟨0, 1⟩).2 (by decide +kernel)) hbreak
  · exact happend _ _ _ ⟨[], ['a', 'é'], rfl, rfl⟩ ⟨['a'], ['é'], rfl, rfl⟩ ⟨[], [], rfl, rfl⟩
      (by decide) (by decide)

end Buffer
end Sectioning
