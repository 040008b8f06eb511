/-
The loops of a reader, round by round.

A round of a loop leaves it with a result or goes on from another state (`Round`), and
`Round.Runs` counts the rounds until a loop is left.  A loop whose rounds lead further on the
text of a buffer is left after no more rounds than there are bytes ahead
(`Advances.exists_runs`).  Passing blanks and finding the end of a group are such loops, with the
rounds `Cursor.blankRound` and `Cursor.closeRound`.

Going forward by several bytes is a loop over rows: the length of a row is taken off the
column until the column is on the row (`Buffer.wrapRound`).  This leads where single steps
lead (`On.exists_runs_wrapRound`).
-/
import Sectioning.Proofs.Cursors
import Sectioning.Proofs.LineIndex

namespace Sectioning

/-! ## Loops -/

/-- What a round of a loop comes to. -/
inductive Round (σ ρ : Type) where
  /-- The loop is left. -/
  | leave (result : ρ)
  /-- The loop goes on from another state. -/
  | again (state : σ)

namespace Round

variable {σ ρ : Type}

/-- The round that goes on from a state, and leaves the loop where there is none. -/
def along : Option σ → Round σ (Option ρ)
  | none => leave none
  | some s => again s

/-- The result of a loop after a round, where `value` is what the loop comes to. -/
def finish (value : σ → ρ) : Round σ ρ → ρ
  | leave r => r
  | again s => value s

/-- From a state, the loop is left with a result after a number of rounds. -/
inductive Runs (round : σ → Round σ ρ) : σ → Nat → ρ → Prop
  | leave {s : σ} {r : ρ} (h : round s = .leave r) : Runs round s 1 r
  | again {s t : σ} {n : Nat} {r : ρ} (h : round s = .again t) (rest : Runs round t n r) :
      Runs round s (n + 1) r

/-- Rounds keep an invariant, lower a measure and do not change what the loop comes to. -/
structure Descends (round : σ → Round σ ρ) (Inv : σ → Prop) (measure : σ → Nat)
    (value : σ → ρ) : Prop where
  pos : ∀ {s}, Inv s → 0 < measure s
  again : ∀ {s t}, Inv s → round s = .again t → Inv t ∧ measure t < measure s
  value_eq : ∀ {s}, Inv s → value s = (round s).finish value

@[simp] theorem along_eq_again_iff {found : Option σ} {s : σ} :
    (along found : Round σ (Option ρ)) = again s ↔ found = some s := by
  cases found <;> simp [along]

theorem along_ne_leave (found : Option σ) (r : ρ) : along found ≠ leave (some r) := by
  cases found <;> simp [along]

@[simp] theorem finish_along (value : σ → Option ρ) (found : Option σ) :
    (along found).finish value = found.bind value := by
  cases found <;> rfl

theorem Descends.exists_runs {round : σ → Round σ ρ} {Inv : σ → Prop} {measure : σ → Nat}
    {value : σ → ρ} (h : Descends round Inv measure value) {s : σ} (hs : Inv s) :
    ∃ n, n ≤ measure s ∧ Runs round s n (value s) := by
  induction hm : measure s using Nat.strongRecOn generalizing s with
  | ind m ih =>
    have hvalue := h.value_eq hs
    cases hround : round s with
    | leave r =>
      rw [hround] at hvalue
      exact ⟨1, hm ▸ h.pos hs, hvalue ▸ .leave hround⟩
    | again t =>
      rw [hround] at hvalue
      obtain ⟨ht, hlt⟩ := h.again hs hround
      obtain ⟨n, hn, hruns⟩ := ih (measure t) (hm ▸ hlt) ht rfl
      exact ⟨n + 1, by omega, hvalue ▸ .again hround hruns⟩

end Round

/-! ## Places on the text -/

namespace Buffer

/-- The place of a byte of a line. -/
def OnText (b : Buffer) (p : Position) : Prop :=
  p.row < b.lineCount ∧ p.column < b.lineLength p.row

/-- The number of bytes of the text from a place on. -/
def bytesFrom (b : Buffer) (p : Position) : Nat :=
  Text.byteLength b.text - (b.rowStart p.row + p.column)

variable {b : Buffer} {p q : Position}

theorem OnLine.offset? (h : b.OnLine p) : b.offset? p = some (b.rowStart p.row + p.column) := by
  obtain ⟨l, hl, hcolumn⟩ := onLine_iff.1 h
  exact offset?_eq_some_iff.2 ⟨l, hl, hcolumn, rfl⟩

theorem OnLine.offset_le (h : b.OnLine p) :
    b.rowStart p.row + p.column ≤ Text.byteLength b.text := by
  rw [← isSome_positionAt?_iff, positionAt?_eq_some_iff.2 h.offset?]
  rfl

theorem bytesFrom_pos (h : b.OnText p) : 0 < b.bytesFrom p := by
  have hnext : b.OnLine ⟨p.row, p.column + 1⟩ := ⟨h.1, h.2⟩
  have hle : b.rowStart p.row + (p.column + 1) ≤ Text.byteLength b.text := hnext.offset_le
  rw [bytesFrom]
  omega

theorem bytesFrom_lt (hp : b.OnText p) (hq : b.OnText q) (h : p < q) :
    b.bytesFrom q < b.bytesFrom p := by
  have hlt := offset?_lt (OnLine.offset? ⟨hp.1, Nat.le_of_lt hp.2⟩)
    (OnLine.offset? ⟨hq.1, Nat.le_of_lt hq.2⟩) h
  have hpos := bytesFrom_pos hp
  rw [bytesFrom] at hpos ⊢
  rw [bytesFrom]
  omega

theorem bytesFrom_le (p : Position) : b.bytesFrom p ≤ Text.byteLength b.text :=
  Nat.sub_le _ _

end Buffer

namespace Cursor

variable {b : Buffer} {c d : Cursor}

/-! ## Cursors on the text -/

/-- The line of a cursor is what is before it, its octet and what is behind it. -/
theorem On.lineLength_eq (hc : c.On b) :
    b.lineLength c.position.row = c.position.column + (c.rest.length + 1) := by
  obtain ⟨l, hl, ho⟩ := hc
  have hlength := congrArg List.length ho
  rw [List.length_drop, Text.length_octets, List.length_cons] at hlength
  rw [Buffer.lineLength_eq (Buffer.line?_of_drop_lines hl)]
  omega

theorem On.onText (hc : c.On b) : b.OnText c.position := by
  have hlength := hc.lineLength_eq
  obtain ⟨l, hl, -⟩ := hc
  exact ⟨Buffer.lt_lineCount (Buffer.line?_of_drop_lines hl), by omega⟩

theorem exists_on {p : Position} (h : b.OnText p) : ∃ c : Cursor, c.position = p ∧ c.On b := by
  obtain ⟨l, hl⟩ := Buffer.exists_line? h.1
  have hcolumn : p.column < (Text.octets l).length := by
    rw [Text.length_octets, ← Buffer.lineLength_eq hl]
    exact h.2
  obtain ⟨o, rest, ho⟩ := List.exists_cons_of_ne_nil
    (mt List.drop_eq_nil_iff.1 (Nat.not_le.2 hcolumn))
  exact ⟨⟨p, o, rest, b.lines.drop (p.row + 1)⟩, rfl, l, Buffer.drop_lines_eq hl, ho⟩

theorem On.eq_of_position_eq (hc : c.On b) (hd : d.On b) (h : c.position = d.position) :
    c = d := by
  have hcursor := Buffer.cursorAt?_eq_some_iff.2 ⟨h, hc⟩
  rw [Buffer.cursorAt?_eq_some_iff.2 ⟨rfl, hd⟩] at hcursor
  exact (Option.some.inj hcursor).symm

end Cursor

/-! ## Loops that lead further on the text -/

namespace Round

variable {σ ρ : Type} {b : Buffer} {cursor : σ → Cursor} {round : σ → Round σ ρ}

/-- Every round from a cursor on the text leads to a later place on the text. -/
def Advances (b : Buffer) (cursor : σ → Cursor) (round : σ → Round σ ρ) : Prop :=
  ∀ s t, (cursor s).On b → round s = .again t →
    (cursor t).On b ∧ (cursor s).position < (cursor t).position

theorem Advances.exists_runs (h : Advances b cursor round) {value : σ → ρ}
    (hvalue : ∀ s, value s = (round s).finish value) {s : σ} (hs : (cursor s).On b) :
    ∃ n, n ≤ b.bytesFrom (cursor s).position ∧ Runs round s n (value s) := by
  have hdescends : Descends round (fun s => (cursor s).On b)
      (fun s => b.bytesFrom (cursor s).position) value := by
    refine ⟨fun hs => Buffer.bytesFrom_pos hs.onText, fun hs hround => ?_, fun _ => hvalue _⟩
    obtain ⟨ht, hlt⟩ := h _ _ hs hround
    exact ⟨ht, Buffer.bytesFrom_lt hs.onText ht.onText hlt⟩
  exact hdescends.exists_runs hs

end Round

namespace Cursor

variable {b : Buffer} {c d : Cursor}

/-- A round of passing blanks and comments. -/
def blankRound (c : Cursor) : Round Cursor (Option Cursor) :=
  match c.octet with
  | .later => .leave (some c)
  | .first ch =>
    if ch = '%' then .along c.nextLine?
    else if isBlank ch then .along (advanceBy? ch.utf8Size c)
    else .leave (some c)

/-- A round of finding the end of a group, with the numbers of further groups that are
open. -/
def closeRound (k : Delimiter) (s : Counts × Cursor) : Round (Counts × Cursor) (Option Cursor) :=
  if s.2.octet = .first k.closer ∧ s.1.get k = 0 then .leave (some s.2)
  else .along (s.2.onward?.map fun e => (s.1.after s.2.octet, e))

theorem advanceBy?_add (m n : Nat) (c : Cursor) :
    advanceBy? (m + n) c = (advanceBy? m c).bind (advanceBy? n) := by
  induction m generalizing c with
  | zero => rw [Nat.zero_add, advanceBy?, Option.bind_some]
  | succ m ih =>
    rw [Nat.succ_add, advanceBy?, advanceBy?, Option.bind_assoc]
    exact Option.bind_congr fun d _ => ih d

theorem On.position_lt_of_advanceBy? {n : Nat} (hn : 0 < n) (hc : c.On b)
    (h : Cursor.advanceBy? n c = some d) : c.position < d.position := by
  obtain ⟨m, rfl⟩ := Nat.exists_eq_succ_of_ne_zero (Nat.ne_of_gt hn)
  obtain ⟨e, he, hd⟩ := Option.bind_eq_some_iff.1 h
  obtain ⟨hon, hlt⟩ := hc.advance? he
  have hle := (hon.advanceBy? hd).2
  rw [Position.lt_iff] at hlt ⊢
  rw [Position.le_iff] at hle
  omega

theorem advances_blankRound (b : Buffer) : Round.Advances b (fun c => c) blankRound := by
  intro c d hc h
  unfold blankRound at h
  split at h
  · cases h
  · next ch hch =>
    split at h
    · obtain ⟨hon, -, hrow, -⟩ := hc.nextLine? (Round.along_eq_again_iff.1 h)
      exact ⟨hon, Or.inl hrow⟩
    · split at h
      · have hstep := Round.along_eq_again_iff.1 h
        exact ⟨(hc.advanceBy? hstep).1, hc.position_lt_of_advanceBy? ch.utf8Size_pos hstep⟩
      · cases h

theorem eq_of_blankRound (h : c.blankRound = .leave (some d)) : d = c := by
  unfold blankRound at h
  split at h
  · cases h
    rfl
  · split at h
    · exact absurd h (Round.along_ne_leave _ _)
    · split at h
      · exact absurd h (Round.along_ne_leave _ _)
      · cases h
        rfl

theorem skipBlank?_eq_finish (c : Cursor) : c.skipBlank? = c.blankRound.finish skipBlank? := by
  unfold blankRound
  split
  · next h => exact skipBlank?_later h
  · next ch h =>
    rw [skipBlank?_first h]
    split
    · rw [Round.finish_along]
    · split
      · rw [Round.finish_along]
      · rfl

theorem advances_closeRound (b : Buffer) (k : Delimiter) :
    Round.Advances b Prod.snd (closeRound k) := by
  intro s t hs h
  unfold closeRound at h
  split at h
  · cases h
  · obtain ⟨e, he, rfl⟩ := Option.map_eq_some_iff.1 (Round.along_eq_again_iff.1 h)
    exact hs.onward? he

theorem eq_of_closeRound {k : Delimiter} {s : Counts × Cursor}
    (h : closeRound k s = .leave (some d)) : d = s.2 := by
  unfold closeRound at h
  split at h
  · cases h
    rfl
  · exact absurd h (Round.along_ne_leave _ _)

theorem findClose?_eq_finish (k : Delimiter) (s : Counts × Cursor) :
    findClose? k s.1 s.2 = (closeRound k s).finish fun t => findClose? k t.1 t.2 := by
  rw [findClose?_eq, closeRound]
  split
  · rfl
  · rw [Round.finish_along, Option.bind_map]
    rfl

/-! ## Between characters -/

theorem On.exists_first_of_isBetween (hc : c.On b) (h : b.IsBetween c.position) :
    ∃ ch, c.octet = .first ch := by
  cases hoctet : c.octet with
  | first ch => exact ⟨ch, rfl⟩
  | later =>
    obtain ⟨l, hl, ho⟩ := hc
    refine absurd ⟨l, Buffer.line?_of_drop_lines hl, ?_⟩ (Buffer.isBetween_iff.1 h).2
    rw [← Nat.add_zero c.position.column, ← List.getElem?_drop, ho, hoctet]
    rfl

/-- After a whole character stands the first octet of another. -/
theorem On.exists_first_of_advanceBy? {ch : Char} (hc : c.On b) (h : c.octet = .first ch)
    (hd : Cursor.advanceBy? ch.utf8Size c = some d) : ∃ ch', d.octet = .first ch' := by
  obtain ⟨l, -, ho⟩ := hc
  rw [h] at ho
  obtain ⟨us, vs, -, -, hrest⟩ := Text.exists_of_drop_octets ho
  have hbefore : c = before c.position ch vs c.below := by
    rw [before, ← hrest, ← h]
  rw [hbefore, advanceBy?_before] at hd
  cases vs with
  | nil =>
    obtain ⟨n, ch', cs, -, -, -, hfilled⟩ := firstFilled?_eq_some hd
    exact ⟨ch', by rw [hfilled]; rfl⟩
  | cons ch' vs =>
    cases hd
    exact ⟨ch', rfl⟩

theorem On.exists_first_of_skipBlank? {ch : Char} (hc : c.On b) (hch : c.octet = .first ch)
    (h : c.skipBlank? = some d) : ∃ ch', d.octet = .first ch' := by
  fun_induction Cursor.skipBlank? c generalizing ch with
  | case1 c hlater =>
    rw [hch] at hlater
    cases hlater
  | case2 => cases h
  | case3 c e he _ ih =>
    obtain ⟨hon, -, -, ch', hch'⟩ := hc.nextLine? he
    exact ih hon hch' h
  | case4 => cases h
  | case5 c ch' hch' _ _ e he ih =>
    obtain ⟨ch'', hch''⟩ := hc.exists_first_of_advanceBy? hch' he
    exact ih (hc.advanceBy? he).1 hch'' h
  | case6 =>
    cases h
    exact ⟨ch, hch⟩

theorem On.isBetween_of_skipBlank? (hc : c.On b) (h : c.skipBlank? = some d)
    (hbetween : b.IsBetween c.position) : b.IsBetween d.position := by
  obtain ⟨ch, hch⟩ := hc.exists_first_of_isBetween hbetween
  obtain ⟨ch', hch'⟩ := hc.exists_first_of_skipBlank? hch h
  exact (hc.skipBlank? h).isBetween hch'

/-! ## Forward by several bytes -/

theorem position_firstFilled? (row : Nat) (ls : List (List Char)) :
    (firstFilled? row ls).map position =
      (ls.findIdx? fun l => !Text.isAllBlank l).map fun n => ⟨row + n, 0⟩ := by
  fun_induction firstFilled? row ls with
  | case1 => rfl
  | case2 row ls ih =>
    rw [ih, List.findIdx?_cons, if_neg (by decide), Option.map_map]
    refine Option.map_congr fun n _ => ?_
    show (⟨row + 1 + n, 0⟩ : Position) = ⟨row + (n + 1), 0⟩
    rw [Nat.add_assoc, Nat.add_comm 1]
  | case3 row ch cs ls hblank ih =>
    rw [ih, List.findIdx?_cons, if_neg (by simp [hblank]), Option.map_map]
    refine Option.map_congr fun n _ => ?_
    show (⟨row + 1 + n, 0⟩ : Position) = ⟨row + (n + 1), 0⟩
    rw [Nat.add_assoc, Nat.add_comm 1]
  | case4 row ch cs ls hfilled =>
    rw [List.findIdx?_cons, if_pos (by simpa using hfilled)]
    rfl

theorem On.position_nextLine? (hc : c.On b) :
    c.nextLine?.map position = (b.nextFilledRow? c.position.row).map fun row => ⟨row, 0⟩ := by
  rw [Cursor.nextLine?, position_firstFilled?, Buffer.nextFilledRow?, hc.drop_succ_row,
    Option.map_map]
  rfl

theorem On.advanceBy?_within {n : Nat} (hc : c.On b)
    (h : c.position.column + n < b.lineLength c.position.row) :
    ∃ d, Cursor.advanceBy? n c = some d ∧ d.position = ⟨c.position.row, c.position.column + n⟩ := by
  cases n with
  | zero => exact ⟨c, rfl, rfl⟩
  | succ n =>
    rw [hc.lineLength_eq] at h
    obtain ⟨o, rest, ho⟩ := List.exists_cons_of_ne_nil
      (mt List.drop_eq_nil_iff.1 (show ¬ c.rest.length ≤ n by omega))
    have hrest : c.rest = c.rest.take n ++ o :: rest := by
      rw [← ho, List.take_append_drop]
    have hlength : (c.rest.take n).length = n := by
      rw [List.length_take]
      omega
    have hstep := advanceBy?_of_rest hrest
    rw [hlength] at hstep
    exact ⟨_, hstep, rfl⟩

theorem On.advanceBy?_lineEnd {n : Nat} (hc : c.On b)
    (h : c.position.column + n = b.lineLength c.position.row) :
    Cursor.advanceBy? n c = c.nextLine? := by
  rw [hc.lineLength_eq] at h
  have hn : n = c.rest.length + 1 := by omega
  rw [hn]
  exact advanceBy?_of_end c

end Cursor

namespace Buffer

variable {b : Buffer}

/-- A round of going forward by several bytes, from the start of a row.  Where the column
is behind the row, its length is taken off and the next row that holds more than blanks
follows. -/
def wrapRound (b : Buffer) (p : Position) : Round Position (Option Position) :=
  if p.column < b.lineLength p.row then .leave (some p)
  else .along ((b.nextFilledRow? p.row).map fun row => ⟨row, p.column - b.lineLength p.row⟩)

/-- Where single steps from the start of the row lead. -/
def stepsFrom? (b : Buffer) (p : Position) : Option Position :=
  ((b.cursorAt? ⟨p.row, 0⟩).bind (Cursor.advanceBy? p.column)).map Cursor.position

theorem exists_on_row {row : Nat} (h : 0 < b.lineLength row) :
    ∃ c : Cursor, c.position = ⟨row, 0⟩ ∧ c.On b := by
  refine Cursor.exists_on ⟨?_, h⟩
  by_contra hrow
  have hnone : b.line? row = none := List.getElem?_eq_none_iff.2 (Nat.not_lt.1 hrow)
  rw [lineLength, hnone] at h
  cases h

/-- The next row that holds more than blanks has a cursor at its start. -/
theorem nextFilledRow?_eq_some {c : Cursor} {row : Nat} (hc : c.On b)
    (h : b.nextFilledRow? c.position.row = some row) :
    ∃ d, c.nextLine? = some d ∧ d.position = ⟨row, 0⟩ ∧ d.On b := by
  have hposition := hc.position_nextLine?
  rw [h, Option.map_some, Option.map_eq_some_iff] at hposition
  obtain ⟨d, hd, hrow⟩ := hposition
  exact ⟨d, hd, hrow, (hc.nextLine? hd).1⟩

theorem wrapRound_eq_again {p q : Position} (h : b.wrapRound p = .again q) :
    p.column = b.lineLength p.row + q.column ∧ b.nextFilledRow? p.row = some q.row := by
  unfold wrapRound at h
  split at h
  · cases h
  · next hcolumn =>
    obtain ⟨row, hrow, rfl⟩ := Option.map_eq_some_iff.1 (Round.along_eq_again_iff.1 h)
    exact ⟨by show p.column = _ + (p.column - _); omega, hrow⟩

theorem stepsFrom?_eq_finish {p : Position} (h : 0 < b.lineLength p.row) :
    b.stepsFrom? p = (b.wrapRound p).finish b.stepsFrom? := by
  obtain ⟨c, hposition, hc⟩ := exists_on_row h
  have hcursor : b.cursorAt? ⟨p.row, 0⟩ = some c := cursorAt?_eq_some_iff.2 ⟨hposition, hc⟩
  have hrow : c.position.row = p.row := by rw [hposition]
  have hcolumn : c.position.column = 0 := by rw [hposition]
  rw [stepsFrom?, hcursor, Option.bind_some]
  unfold wrapRound
  split
  · next hwithin =>
    obtain ⟨d, hd, hplace⟩ := hc.advanceBy?_within (n := p.column) (by rw [hrow, hcolumn]; omega)
    rw [hd, Option.map_some, hplace, hrow, hcolumn, Nat.zero_add]
    rfl
  · next hbehind =>
    -- the steps up to the end of the row lead to the next row
    have hlineEnd : Cursor.advanceBy? (b.lineLength p.row) c = c.nextLine? :=
      hc.advanceBy?_lineEnd (by rw [hrow, hcolumn, Nat.zero_add])
    obtain ⟨n, hn⟩ := Nat.exists_eq_add_of_le (Nat.not_lt.1 hbehind)
    rw [hn, Cursor.advanceBy?_add, hlineEnd, Nat.add_sub_cancel_left, Round.finish_along]
    cases hnext : b.nextFilledRow? p.row with
    | none =>
      have hnone := hc.position_nextLine?
      rw [hrow, hnext, Option.map_none, Option.map_eq_none_iff] at hnone
      rw [hnone]
      rfl
    | some row =>
      obtain ⟨d, hd, hplace, hon⟩ := nextFilledRow?_eq_some hc (hrow ▸ hnext)
      have hcursor' : b.cursorAt? ⟨row, 0⟩ = some d := cursorAt?_eq_some_iff.2 ⟨hplace, hon⟩
      rw [hd, Option.bind_some, Option.map_some, Option.bind_some, stepsFrom?, hcursor',
        Option.bind_some]

theorem descends_wrapRound (b : Buffer) : Round.Descends b.wrapRound
    (fun p => 0 < b.lineLength p.row) (fun p => b.lineCount - p.row) b.stepsFrom? := by
  refine ⟨fun {p} hp => ?_, fun {p q} hp hround => ?_, stepsFrom?_eq_finish⟩
  · obtain ⟨c, hposition, hc⟩ := exists_on_row hp
    have hrow := hc.onText.1
    rw [hposition] at hrow
    exact Nat.sub_pos_of_lt hrow
  · obtain ⟨c, hposition, hc⟩ := exists_on_row hp
    have hrow : c.position.row = p.row := by rw [hposition]
    obtain ⟨d, hd, hplace, hon⟩ :=
      nextFilledRow?_eq_some hc (hrow ▸ (wrapRound_eq_again hround).2)
    have hbelow : p.row < q.row := by
      have hlt := (hc.nextLine? hd).2.2.1
      rw [hrow, hplace] at hlt
      exact hlt
    obtain ⟨hcount, hlength⟩ : b.OnText ⟨q.row, 0⟩ := hplace ▸ hon.onText
    exact ⟨hlength, Nat.sub_lt_sub_left (Nat.lt_trans hbelow hcount) hbelow⟩

/-- A width that fits into the row leads past its end at most once. -/
theorem rounds_le_two {p : Position} {m : Nat} {found : Option Position}
    (h : Round.Runs b.wrapRound p m found) (hrow : 0 < b.lineLength p.row)
    (hfits : p.column ≤ b.lineLength p.row) : m ≤ 2 := by
  cases h with
  | leave h => decide
  | @again _ q n _ h rest =>
    obtain ⟨hcolumn, -⟩ := wrapRound_eq_again h
    have hq := ((descends_wrapRound b).again hrow h).1
    cases rest with
    | leave h' => decide
    | again h' _ =>
      -- the column is the first of its row, and so on it
      have hcolumn' := (wrapRound_eq_again h').1
      omega

end Buffer

namespace Cursor

variable {b : Buffer} {c : Cursor}

theorem On.exists_runs_wrapRound (hc : c.On b) (n : Nat) :
    ∃ m, Round.Runs b.wrapRound ⟨c.position.row, c.position.column + n⟩ m
        ((Cursor.advanceBy? n c).map position) ∧
      (c.position.column + n ≤ b.lineLength c.position.row → m ≤ 2) := by
  have hrow : 0 < b.lineLength c.position.row := Nat.lt_of_le_of_lt (Nat.zero_le _) hc.onText.2
  obtain ⟨m, -, hruns⟩ := (b.descends_wrapRound).exists_runs
    (s := ⟨c.position.row, c.position.column + n⟩) hrow
  -- the steps from the start of the row come to `c` first
  obtain ⟨e, hposition, he⟩ := Buffer.exists_on_row hrow
  have hstart : b.cursorAt? ⟨c.position.row, 0⟩ = some e :=
    Buffer.cursorAt?_eq_some_iff.2 ⟨hposition, he⟩
  have hto : Cursor.advanceBy? c.position.column e = some c := by
    obtain ⟨d, hd, hplace⟩ := he.advanceBy?_within (n := c.position.column) (by
      rw [hposition, Nat.zero_add]
      exact hc.onText.2)
    rw [hposition, Nat.zero_add] at hplace
    rw [hd, (he.advanceBy? hd).1.eq_of_position_eq hc hplace]
  have hvalue : b.stepsFrom? ⟨c.position.row, c.position.column + n⟩ =
      (Cursor.advanceBy? n c).map position := by
    rw [Buffer.stepsFrom?, hstart, Option.bind_some, advanceBy?_add, hto, Option.bind_some]
  rw [hvalue] at hruns
  exact ⟨m, hruns, Buffer.rounds_le_two hruns hrow⟩

end Cursor
end Sectioning
