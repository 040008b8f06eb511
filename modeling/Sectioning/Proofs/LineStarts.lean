/-
Where the lines of a text start.

The starts of the lines are those of the text one after another (`getElem?_starts`): each
row starts one byte behind the end of the row above it (`rowStart_succ`).  So the span of a
row that is read off the starts is that of its line (`lineSpan?_eq`).  The starts increase,
and what the search by halving finds among them is the row of an offset
(`partitionPoint_eq`, `positionAt?_rowStart_add`).
-/
import Sectioning.Proofs.Blanks
import Sectioning.Proofs.Bytes
import Sectioning.Text.Buffer

namespace Sectioning

/-! ## Lines -/

namespace Text

theorem lines_newline_cons (cs : List Char) : lines ('\n' :: cs) = [] :: lines cs := by
  rw [lines, split, if_pos rfl]
  rfl

theorem lines_cons {c : Char} (hc : c ≠ '\n') {cs l : List Char} {ls : List (List Char)}
    (h : lines cs = l :: ls) : lines (c :: cs) = (c :: l) :: ls := by
  rw [lines] at h
  rw [lines, split, if_neg hc, h]
  rfl

theorem exists_lines_eq_cons (cs : List Char) : ∃ l ls, lines cs = l :: ls :=
  List.exists_cons_of_ne_nil (split_ne_nil '\n' cs)

theorem lines_append {us : List Char} (hus : '\n' ∉ us) {vs l : List Char}
    {ls : List (List Char)} (h : lines vs = l :: ls) : lines (us ++ vs) = (us ++ l) :: ls := by
  induction us with
  | nil => exact h
  | cons u us ih =>
    rw [List.mem_cons, not_or] at hus
    exact lines_cons (Ne.symm hus.1) (ih hus.2)

theorem lines_of_notMem {us : List Char} (hus : '\n' ∉ us) : lines us = [us] :=
  split_of_notMem hus

theorem lines_append_newline {us : List Char} (hus : '\n' ∉ us) (vs : List Char) :
    lines (us ++ '\n' :: vs) = us :: lines vs := by
  simpa using lines_append hus (lines_newline_cons vs)

/-- The first line of a text holds no line break, and the lines after it are
those of the text behind the first line break. -/
theorem lines_eq_cons {cs l : List Char} {ls : List (List Char)} (h : lines cs = l :: ls) :
    '\n' ∉ l ∧ (ls = [] ∧ cs = l ∨ ∃ cs', cs = l ++ '\n' :: cs' ∧ lines cs' = ls) := by
  induction cs generalizing l with
  | nil =>
    cases h
    exact ⟨List.not_mem_nil, Or.inl ⟨rfl, rfl⟩⟩
  | cons c cs ih =>
    by_cases hc : c = '\n'
    · subst hc
      rw [lines_newline_cons] at h
      cases h
      exact ⟨List.not_mem_nil, Or.inr ⟨cs, rfl, rfl⟩⟩
    · obtain ⟨m, ms, hm⟩ := exists_lines_eq_cons cs
      rw [lines_cons hc hm] at h
      cases h
      obtain ⟨hnot, hcs⟩ := ih hm
      refine ⟨?_, ?_⟩
      · rw [List.mem_cons, not_or]
        exact ⟨Ne.symm hc, hnot⟩
      · rcases hcs with ⟨hls, rfl⟩ | ⟨cs', rfl, hcs'⟩
        · exact Or.inl ⟨hls, rfl⟩
        · exact Or.inr ⟨cs', rfl, hcs'⟩

theorem notMem_of_mem_lines {cs l : List Char} (h : l ∈ lines cs) : '\n' ∉ l := by
  generalize hls : lines cs = ls at h
  induction ls generalizing cs with
  | nil => cases h
  | cons l' ls ih =>
    obtain ⟨hl', hcs⟩ := lines_eq_cons hls
    rw [List.mem_cons] at h
    rcases h with rfl | h
    · exact hl'
    · rcases hcs with ⟨rfl, -⟩ | ⟨cs', -, hls'⟩
      · cases h
      · exact ih hls' h

theorem intercalate_lines (cs : List Char) : ['\n'].intercalate (lines cs) = cs := by
  generalize hls : lines cs = ls
  induction ls generalizing cs with
  | nil => exact absurd hls (split_ne_nil _ _)
  | cons l ls ih =>
    obtain ⟨-, ⟨rfl, rfl⟩ | ⟨ds, rfl, hds⟩⟩ := lines_eq_cons hls
    · exact List.intercalate_singleton
    · have hjoin := ih ds hds
      cases ls with
      | nil => exact absurd hds (split_ne_nil _ _)
      | cons l' ls =>
        rw [List.intercalate_cons_cons, hjoin, List.append_assoc]
        rfl

theorem lines_injective : Function.Injective lines :=
  Function.LeftInverse.injective intercalate_lines

/-! ## Starts -/

theorem behindBreaks_append {us : List Char} (hus : '\n' ∉ us) (n : Nat) (vs : List Char) :
    behindBreaks n (us ++ vs) = behindBreaks (n + byteLength us) vs := by
  induction us generalizing n with
  | nil => rfl
  | cons u us ih =>
    rw [List.mem_cons, not_or] at hus
    rw [List.cons_append, behindBreaks, if_neg (Ne.symm hus.1), ih hus.2, byteLength_cons,
      Nat.add_assoc]

/-- Behind the first line the starts are those of the lines that follow. -/
theorem behindBreaks_newline {us : List Char} (hus : '\n' ∉ us) (n : Nat) (vs : List Char) :
    behindBreaks n (us ++ '\n' :: vs) =
      (n + (byteLength us + 1)) :: behindBreaks (n + (byteLength us + 1)) vs := by
  rw [behindBreaks_append hus, behindBreaks, if_pos rfl, Nat.add_assoc]

theorem getElem?_starts {ls : List (List Char)} (n k : Nat) {cs : List Char} (h : lines cs = ls) :
    (n :: behindBreaks n cs)[k]? = if k < ls.length then
      some ((ls.take k).foldl (fun m l => m + (byteLength l + 1)) n) else none := by
  induction ls generalizing cs n k with
  | nil => exact absurd h (split_ne_nil _ _)
  | cons l ls ih =>
    cases k with
    | zero => simp
    | succ k =>
      rw [List.getElem?_cons_succ]
      obtain ⟨hl, ⟨rfl, rfl⟩ | ⟨ds, rfl, hds⟩⟩ := lines_eq_cons h
      · rw [← List.append_nil cs, behindBreaks_append hl]
        simp [behindBreaks]
      · rw [behindBreaks_newline hl, ih _ k hds]
        simp

/-- All lines with their breaks are one byte longer than the text, since the last line has
no line break. -/
theorem foldl_lines {ls : List (List Char)} (n : Nat) {cs : List Char} (h : lines cs = ls) :
    ls.foldl (fun m l => m + (byteLength l + 1)) n = n + (byteLength cs + 1) := by
  induction ls generalizing cs n with
  | nil => exact absurd h (split_ne_nil _ _)
  | cons l ls ih =>
    obtain ⟨-, ⟨rfl, rfl⟩ | ⟨ds, rfl, hds⟩⟩ := lines_eq_cons h
    · rfl
    · rw [List.foldl_cons, ih _ hds, byteLength_append, byteLength_cons]
      have hbreak : Char.utf8Size '\n' = 1 := by decide
      omega

end Text

/-! ## Searching by halving -/

/-- The search finds the number of entries that pass the test, wherever in its range that
number lies. -/
theorem partitionFrom_eq {xs : Array Nat} {test : Nat → Bool} {n base size : Nat}
    (htest : ∀ i x, xs[i]? = some x → (test x = true ↔ i < n)) (hbase : base ≤ n)
    (hn : n ≤ base + size) (hsize : base + size ≤ xs.size) :
    partitionFrom xs test base size = n := by
  have hpasses : ∀ i, i < xs.size → (xs[i]?.any test = true ↔ i < n) := by
    intro i hi
    have hget := Array.getElem?_eq_getElem hi
    rw [hget, Option.any_some]
    exact htest i _ hget
  fun_induction partitionFrom xs test base size with
  | case1 base size hlong half passes ih =>
    have hhalf : half = size / 2 := rfl
    have hiff : passes = true ↔ base + half < n := hpasses (base + half) (by omega)
    by_cases hp : passes = true
    · have hlt := hiff.1 hp
      rw [dif_pos hp] at ih
      rw [if_pos hp]
      exact ih (by omega) (by omega) (by omega)
    · have hle : ¬ base + half < n := fun hlt => hp (hiff.2 hlt)
      rw [dif_neg hp] at ih
      rw [if_neg hp]
      exact ih hbase (by omega) (by omega)
  | case2 base size hshort hp =>
    have hlt : base < n := by
      cases hget : xs[base]? with
      | none =>
        rw [hget] at hp
        cases hp
      | some x =>
        rw [hget] at hp
        exact (htest base x hget).1 hp
    omega
  | case3 base size hshort hp =>
    have hnot : base < xs.size → ¬ base < n := fun hi hlt => hp ((hpasses base hi).2 hlt)
    omega

theorem partitionPoint_eq {xs : Array Nat} {test : Nat → Bool} {n : Nat} (hn : n ≤ xs.size)
    (htest : ∀ i x, xs[i]? = some x → (test x = true ↔ i < n)) : partitionPoint xs test = n :=
  partitionFrom_eq htest (Nat.zero_le n) (by omega) (by omega)

/-! ## Rows -/

namespace Buffer

/-- The offset at which a row starts, found by going through the rows above it. -/
def rowStart (b : Buffer) (row : Nat) : Nat :=
  (b.lines.take row).foldl (fun n l => n + (Text.byteLength l + 1)) 0

variable {b : Buffer} {p : Position} {k m n : Nat} {l : List Char}

theorem line?_isSome_iff : (b.line? k).isSome ↔ k < b.lineCount := by
  rw [line?, Option.isSome_iff_ne_none, ne_eq, List.getElem?_eq_none_iff, Nat.not_le]
  rfl

theorem exists_line? (h : k < b.lineCount) : ∃ l, b.line? k = some l :=
  Option.isSome_iff_exists.1 (line?_isSome_iff.2 h)

theorem lt_lineCount (h : b.line? k = some l) : k < b.lineCount :=
  line?_isSome_iff.1 (by rw [h]; rfl)

/-- A row starts behind the line break of the row above it. -/
theorem rowStart_succ (h : b.line? k = some l) :
    b.rowStart (k + 1) = b.rowStart k + (Text.byteLength l + 1) := by
  rw [line?] at h
  rw [rowStart, rowStart, List.take_add_one, h, List.foldl_append]
  rfl

theorem rowStart_mono (h : m ≤ n) : b.rowStart m ≤ b.rowStart n := by
  induction n with
  | zero => rw [Nat.le_zero.1 h]
  | succ n ih =>
    rcases Nat.le_or_eq_of_le_succ h with hle | rfl
    · refine Nat.le_trans (ih hle) ?_
      cases hl : b.line? n with
      | some l =>
        rw [rowStart_succ hl]
        omega
      | none =>
        have hlen : b.lines.length ≤ n := List.getElem?_eq_none_iff.1 hl
        rw [rowStart, rowStart, List.take_of_length_le hlen, List.take_of_length_le (by omega)]
    · exact Nat.le_refl _

theorem rowStart_lineCount (b : Buffer) : b.rowStart b.lineCount = Text.byteLength b.text + 1 := by
  rw [rowStart, lineCount, List.take_length, Text.foldl_lines 0 b.lines_eq.symm, Nat.zero_add]

/-! ## Reading the starts -/

theorem getElem?_starts (b : Buffer) (k : Nat) :
    b.starts[k]? = if k < b.lineCount then some (b.rowStart k) else none := by
  rw [b.starts_eq, Text.lineStarts, List.getElem?_toArray, Text.getElem?_starts 0 k b.lines_eq.symm]
  rfl

theorem size_starts (b : Buffer) : b.starts.size = b.lineCount := by
  have hpast : ∀ k, b.starts.size ≤ k ↔ b.lineCount ≤ k := by
    intro k
    rw [← Array.getElem?_eq_none_iff, getElem?_starts, ite_eq_right_iff]
    simp
  have hle := hpast b.starts.size
  have hge := hpast b.lineCount
  omega

/-- The span of a row is that of its line. -/
theorem lineSpan?_eq (b : Buffer) (k : Nat) :
    b.lineSpan? k = (b.line? k).map fun l =>
      (b.rowStart k, b.rowStart k + Text.byteLength l) := by
  rw [lineSpan?, getElem?_starts, getElem?_starts]
  cases hl : b.line? k with
  | none =>
    have hno : ¬ k < b.lineCount := by
      rw [← line?_isSome_iff, hl]
      exact Bool.false_ne_true
    rw [if_neg hno]
    rfl
  | some l =>
    have hstart := rowStart_succ hl
    have hnext : b.rowStart (k + 1) - 1 = b.rowStart k + Text.byteLength l := by omega
    rw [if_pos (lt_lineCount hl)]
    split
    · simp only [Option.map_some, Option.elim_some, hnext]
    · next hlast =>
      have hcount : b.lineCount = k + 1 := by
        have hlt := lt_lineCount hl
        omega
      have htotal : Text.byteLength b.text = b.rowStart k + Text.byteLength l := by
        have htotal := b.rowStart_lineCount
        rw [hcount] at htotal
        omega
      simp only [Option.map_some, Option.elim_none, htotal]

theorem offset?_eq_some_iff : b.offset? p = some n ↔
    ∃ l, b.line? p.row = some l ∧ p.column ≤ Text.byteLength l ∧
      n = b.rowStart p.row + p.column := by
  rw [offset?, lineSpan?_eq]
  cases b.line? p.row with
  | none => simp
  | some l =>
    simp only [Option.map_some, Option.bind_some, Option.some.injEq, exists_eq_left']
    split
    · next hle =>
      rw [Option.some.injEq]
      omega
    · next hle =>
      refine iff_of_false (by simp) ?_
      omega

/-- The row that the search finds is the one in which the offset lies. -/
theorem positionAt?_rowStart_add (hl : b.line? k = some l) {column : Nat}
    (hcolumn : column ≤ Text.byteLength l) :
    b.positionAt? (b.rowStart k + column) = some ⟨k, column⟩ := by
  have hk := lt_lineCount hl
  have hnext := rowStart_succ hl
  have hinside : ¬ Text.byteLength b.text < b.rowStart k + column := by
    have htotal := b.rowStart_lineCount
    have hle : b.rowStart (k + 1) ≤ b.rowStart b.lineCount := rowStart_mono hk
    omega
  have hrow : partitionPoint b.starts (fun start => start ≤ b.rowStart k + column) = k + 1 := by
    refine partitionPoint_eq (by rw [size_starts]; exact hk) fun i start hstart => ?_
    rw [getElem?_starts] at hstart
    split at hstart
    · cases hstart
      rw [decide_eq_true_iff]
      constructor
      · -- a later row starts behind the line break of this one
        intro hle
        by_contra hlt
        have hmono : b.rowStart (k + 1) ≤ b.rowStart i := rowStart_mono (by omega)
        omega
      · intro hlt
        have hmono : b.rowStart i ≤ b.rowStart k := rowStart_mono (by omega)
        omega
    · cases hstart
  rw [positionAt?, if_neg hinside, hrow]
  simp only [Nat.add_sub_cancel, getElem?_starts, if_pos hk, Option.map_some,
    Nat.add_sub_cancel_left]

end Buffer
end Sectioning
