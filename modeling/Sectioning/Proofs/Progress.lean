/-
Readers make progress.

A reader of an argument passes blanks, finds the end of a short title, passes blanks
again and finds the end of the argument.  As one loop these searches are `Reader.round`, and every
round of it leads further on the text (`Reader.advances_round`), those between two searches too.
So an argument is read in at most as many rounds as the text has bytes, whatever the text and
the occurrence are (`Occurrence.exists_readsIn`).  `steps_make_progress` says this together with
where the steps of a cursor lead.
-/
import Sectioning.Proofs.Entries
import Sectioning.Proofs.Rounds

namespace Sectioning

/-! ## Reading an argument as one loop -/

/-- What a reader is looking for. -/
inductive Reader.Stage where
  /-- The brace that opens the argument, and before it a short title if there may be one. -/
  | opening (shortTitle : Bool)
  /-- The end of a short title in which `n` further groups are open. -/
  | shortTitle (n : Counts)
  /-- The end of the argument that starts at `start`, with `n` further groups open. -/
  | closing (start : Position) (n : Counts)

structure Reader where
  stage : Reader.Stage
  cursor : Cursor

namespace Reader

/-- The round of a reader that stands behind blanks and comments. -/
def opened (short : Bool) (c : Cursor) : Round Reader (Option Range) :=
  if short = true ∧ c.octet = .first '[' then .along (c.advance?.map (mk (.shortTitle .zero)))
  else if c.octet = .first '{' then .along (c.advance?.map fun d => ⟨.closing d.position .zero, d⟩)
  else .leave none

/-- A round of reading an argument.  A search that ends hands over to the next one behind
the delimiter that it has found. -/
def round : Reader → Round Reader (Option Range)
  | ⟨.opening short, c⟩ =>
    match c.blankRound with
    | .again d => .again ⟨.opening short, d⟩
    | .leave none => .leave none
    | .leave (some d) => opened short d
  | ⟨.shortTitle n, c⟩ =>
    match Cursor.closeRound .bracket (n, c) with
    | .again s => .again ⟨.shortTitle s.1, s.2⟩
    | .leave none => .leave none
    | .leave (some d) => .along (d.advance?.map (mk (.opening false)))
  | ⟨.closing start n, c⟩ =>
    match Cursor.closeRound .brace (n, c) with
    | .again s => .again ⟨.closing start s.1, s.2⟩
    | .leave none => .leave none
    | .leave (some d) => .leave (some (.between start d.position))

/-- What a reader finds. -/
def find? : Reader → Option Range
  | ⟨.opening short, c⟩ =>
    c.skipBlank?.bind fun d =>
      (if short then d.passShortTitle? else some d).bind Cursor.bracedRange?
  | ⟨.shortTitle n, c⟩ =>
    (c.findClose? .bracket n).bind fun d => d.advance?.bind fun e =>
      e.skipBlank?.bind Cursor.bracedRange?
  | ⟨.closing start n, c⟩ =>
    (c.findClose? .brace n).map fun d => .between start d.position

theorem advances_round (b : Buffer) : Round.Advances b cursor round := by
  rintro ⟨stage, c⟩ t hc h
  have hstep : ∀ {next : Cursor → Stage}, Round.along (c.advance?.map fun e => mk (next e) e) =
      (Round.again t : Round Reader (Option Range)) →
      t.cursor.On b ∧ c.position < t.cursor.position := by
    intro next h
    obtain ⟨e, he, rfl⟩ := Option.map_eq_some_iff.1 (Round.along_eq_again_iff.1 h)
    exact Cursor.On.advance? hc he
  cases stage with
  | opening short =>
    rw [round] at h
    split at h
    · next d hround =>
      cases h
      exact Cursor.advances_blankRound b c d hc hround
    · cases h
    · next d hround =>
      obtain rfl := Cursor.eq_of_blankRound hround
      unfold opened at h
      split at h
      · exact hstep h
      · split at h
        · exact hstep h
        · cases h
  | shortTitle n =>
    rw [round] at h
    split at h
    · next s hround =>
      cases h
      exact Cursor.advances_closeRound b .bracket (n, c) s hc hround
    · cases h
    · next d hround =>
      obtain rfl := Cursor.eq_of_closeRound hround
      exact hstep h
  | closing start n =>
    rw [round] at h
    split at h
    · next s hround =>
      cases h
      exact Cursor.advances_closeRound b .brace (n, c) s hc hround
    · cases h
    · cases h

theorem finish_opened (short : Bool) (c : Cursor) : (opened short c).finish find? =
    (if short then c.passShortTitle? else some c).bind Cursor.bracedRange? := by
  unfold opened
  split
  · next hshort =>
    rw [if_pos hshort.1, Cursor.passShortTitle?, if_pos hshort.2, Cursor.skipShortTitle?,
      Round.finish_along, Option.bind_map]
    simp only [Option.bind_assoc]
    rfl
  · next hshort =>
    have hpass : (if short then c.passShortTitle? else some c) = some c := by
      split
      · next h => rw [Cursor.passShortTitle?, if_neg fun hoctet => hshort ⟨h, hoctet⟩]
      · rfl
    rw [hpass, Option.bind_some, Cursor.bracedRange?]
    split
    · rw [Round.finish_along, Option.bind_map]
      rfl
    · rfl

theorem find?_eq_finish (r : Reader) : r.find? = r.round.finish find? := by
  obtain ⟨stage, c⟩ := r
  cases stage with
  | opening short =>
    rw [find?, Cursor.skipBlank?_eq_finish, round]
    cases c.blankRound with
    | again d => rfl
    | leave found =>
      cases found with
      | none => rfl
      | some d => exact (finish_opened short d).symm
  | shortTitle n =>
    rw [find?, Cursor.findClose?_eq_finish .bracket (n, c), round]
    cases Cursor.closeRound .bracket (n, c) with
    | again s => rfl
    | leave found =>
      cases found with
      | none => rfl
      | some d =>
        show _ = (Round.along (d.advance?.map (mk (.opening false)))).finish find?
        rw [Round.finish_along, Option.bind_map]
        rfl
  | closing start n =>
    rw [find?, Cursor.findClose?_eq_finish .brace (n, c), round]
    cases Cursor.closeRound .brace (n, c) with
    | again s => rfl
    | leave found => cases found <;> rfl

end Reader

namespace Occurrence

/-- The reader of the argument, if the command counts and has its delimiter on the text. -/
def reader? (b : Buffer) (o : Occurrence) : Option Reader :=
  if o.isGenuine b then (b.cursorAt? o.delimiter).map (Reader.mk (.opening true)) else none

/-- The argument is looked for in `n` rounds, and `found` comes of it. -/
def ReadsIn (b : Buffer) (o : Occurrence) (n : Nat) (found : Option Range) : Prop :=
  match o.reader? b with
  | none => n = 0 ∧ found = none
  | some r => Round.Runs Reader.round r n found

theorem argument?_eq_find? (b : Buffer) (o : Occurrence) :
    o.argument? b = (o.reader? b).bind Reader.find? := by
  unfold argument? reader?
  split
  · rw [Option.bind_map]
    rfl
  · rfl

theorem exists_readsIn (b : Buffer) (o : Occurrence) :
    ∃ n, n ≤ Text.byteLength b.text ∧ o.ReadsIn b n (o.argument? b) := by
  rw [argument?_eq_find?]
  unfold ReadsIn
  cases hr : o.reader? b with
  | none => exact ⟨0, Nat.zero_le _, rfl, rfl⟩
  | some r =>
    have hon : r.cursor.On b := by
      unfold reader? at hr
      split at hr
      · obtain ⟨c, hc, rfl⟩ := Option.map_eq_some_iff.1 hr
        exact (Buffer.cursorAt?_eq_some_iff.1 hc).2
      · cases hr
    obtain ⟨n, hn, hruns⟩ := (Reader.advances_round b).exists_runs Reader.find?_eq_finish hon
    exact ⟨n, Nat.le_trans hn (Buffer.bytesFrom_le _), hruns⟩

/-- The entry of an occurrence is settled by its argument. -/
theorem entry_eq_of_argument? (b : Buffer) (o : Occurrence) :
    o.argument? b = none ∧ o.entry (.ofBuffer b) = .ok .rejected ∨
    ∃ r raw, o.argument? b = some r ∧ b.excerpt? r = some raw ∧
      o.entry (.ofBuffer b) = .ok (o.entryOf b.id (Title.clean raw)) := by
  rw [entry_ofBuffer]
  unfold reading
  cases h : o.argument? b with
  | none => exact Or.inl ⟨rfl, rfl⟩
  | some r =>
    obtain ⟨raw, hraw⟩ := exists_excerpt? h
    exact Or.inr ⟨r, raw, rfl, hraw, by simp only [hraw, Option.getD_some]⟩

end Occurrence

/-! ## Progress -/

namespace Cursor

theorem On.column_add_utf8Size_le {b : Buffer} {c : Cursor} {ch : Char} (hc : c.On b)
    (h : c.octet = .first ch) :
    c.position.column + ch.utf8Size ≤ b.lineLength c.position.row := by
  have hlength := hc.lineLength_eq
  obtain ⟨l, -, ho⟩ := hc
  rw [h] at ho
  obtain ⟨us, vs, -, -, hrest⟩ := Text.exists_of_drop_octets ho
  have hsize : c.rest.length = ch.utf8Size - 1 + Text.byteLength vs := by
    rw [hrest, List.length_append, Text.length_laterOctets, Text.length_octets]
  omega

end Cursor

namespace Buffer

/-- From a byte of a line every step of a reader leads to another one, steps forward and rounds of
loops to a later one.  Going forward by several bytes never takes a longer row off a
column, and a width that fits into the row leads past its end at most once.  So every
search ends, and the entry of every occurrence is found in at most as many rounds as the text
has bytes. -/
theorem steps_make_progress (b : Buffer) :
    (∀ p, b.OnText p ↔ ∃ c : Cursor, c.position = p ∧ c.On b) ∧
    (∀ c d : Cursor, c.On b → c.advance? = some d ∨ c.nextLine? = some d →
      d.On b ∧ c.position < d.position) ∧
    (∀ c d : Cursor, c.On b → c.skipBlank? = some d →
      d.On b ∧ (b.IsBetween c.position → b.IsBetween d.position)) ∧
    (∀ k n (c d : Cursor), c.On b → c.findClose? k n = some d → d.On b) ∧
    Round.Advances b (fun c => c) Cursor.blankRound ∧
    (∀ k, Round.Advances b Prod.snd (Cursor.closeRound k)) ∧
    (∀ c : Cursor, c.On b → ∃ m, m ≤ Text.byteLength b.text ∧
      Round.Runs Cursor.blankRound c m c.skipBlank?) ∧
    (∀ k n (c : Cursor), c.On b → ∃ m, m ≤ Text.byteLength b.text ∧
      Round.Runs (Cursor.closeRound k) (n, c) m (c.findClose? k n)) ∧
    (∀ p q, b.wrapRound p = .again q → p.column = b.lineLength p.row + q.column) ∧
    (∀ n (c : Cursor), c.On b →
      ∃ m, Round.Runs b.wrapRound ⟨c.position.row, c.position.column + n⟩ m
          ((c.advanceBy? n).map Cursor.position) ∧
        (c.position.column + n ≤ b.lineLength c.position.row → m ≤ 2)) ∧
    (∀ (c : Cursor) ch, c.On b → c.octet = .first ch →
      c.position.column + ch.utf8Size ≤ b.lineLength c.position.row) ∧
    (∀ o : Occurrence, ∃ n, n ≤ Text.byteLength b.text ∧ o.ReadsIn b n (o.argument? b) ∧
      (o.argument? b = none ∧ o.entry (.ofBuffer b) = .ok .rejected ∨
        ∃ r raw, o.argument? b = some r ∧ b.excerpt? r = some raw ∧
          o.entry (.ofBuffer b) = .ok (o.entryOf b.id (Title.clean raw)))) := by
  refine ⟨fun p => ⟨Cursor.exists_on, ?_⟩, fun c d hc h => ?_, fun c d hc h => ?_,
    fun k n c d hc h => (hc.findClose? h).1, Cursor.advances_blankRound b,
    Cursor.advances_closeRound b, fun c hc => ?_, fun k n c hc => ?_,
    fun p q h => (wrapRound_eq_again h).1, fun n c hc => hc.exists_runs_wrapRound n,
    fun c ch hc h => hc.column_add_utf8Size_le h, fun o => ?_⟩
  · rintro ⟨c, rfl, hc⟩
    exact hc.onText
  · rcases h with h | h
    · exact hc.advance? h
    · obtain ⟨hon, -, hrow, -⟩ := hc.nextLine? h
      exact ⟨hon, Or.inl hrow⟩
  · exact ⟨hc.skipBlank? h, hc.isBetween_of_skipBlank? h⟩
  · obtain ⟨m, hm, hruns⟩ :=
      (Cursor.advances_blankRound b).exists_runs Cursor.skipBlank?_eq_finish (s := c) hc
    exact ⟨m, Nat.le_trans hm (bytesFrom_le _), hruns⟩
  · obtain ⟨m, hm, hruns⟩ := (Cursor.advances_closeRound b k).exists_runs
      (Cursor.findClose?_eq_finish k) (s := (n, c)) hc
    exact ⟨m, Nat.le_trans hm (bytesFrom_le _), hruns⟩
  · obtain ⟨n, hn, hreads⟩ := o.exists_readsIn b
    exact ⟨n, hn, hreads, o.entry_eq_of_argument? b⟩

/-- A command that is read past a comment, a blank line, an escape at the end of a line and a
letter of two bytes. -/
def winding : Buffer :=
  .ofString ⟨"main.tex"⟩ "\\section%\n \n[a\\\n]]\x7bé\x7d"

theorem steps_make_progress_winding :
    winding.OnText ⟨2, 2⟩ ∧ ¬ winding.OnText ⟨2, 3⟩ ∧
    (∃ c d : Cursor, c.On winding ∧ c.position = ⟨2, 2⟩ ∧ c.advance? = some d ∧
      d.position = ⟨3, 0⟩ ∧ d.On winding ∧ c.position < d.position) ∧
    ∃ n, n ≤ 22 ∧ Occurrence.ReadsIn winding ⟨.section, ⟨⟨0, 0⟩, ⟨0, 9⟩⟩⟩ n
      (some ⟨⟨3, 3⟩, ⟨3, 5⟩⟩) := by
  obtain ⟨hplaces, hsteps, -, -, -, -, -, -, -, -, -, hreads⟩ := steps_make_progress winding
  have hon : (Cursor.before ⟨2, 2⟩ '\\' [] [[']', ']', '\x7b', 'é', '\x7d']]).On winding :=
    ⟨['[', 'a', '\\'], rfl, rfl⟩
  refine ⟨(hplaces _).2 ⟨_, rfl, hon⟩, ?_, ?_, ?_⟩
  · rintro ⟨-, hcolumn⟩
    exact absurd hcolumn (by decide +kernel)
  · exact ⟨_, .before ⟨3, 0⟩ ']' [']', '\x7b', 'é', '\x7d'] [], hon, rfl, rfl, rfl,
      hsteps _ _ hon (Or.inl rfl)⟩
  · obtain ⟨n, hn, hread, -⟩ := hreads ⟨.section, ⟨⟨0, 0⟩, ⟨0, 9⟩⟩⟩
    have hargument : Occurrence.argument? winding ⟨.section, ⟨⟨0, 0⟩, ⟨0, 9⟩⟩⟩ =
        some ⟨⟨3, 3⟩, ⟨3, 5⟩⟩ := by decide +kernel
    rw [hargument] at hread
    exact ⟨n, hn, hread⟩

end Buffer
end Sectioning
