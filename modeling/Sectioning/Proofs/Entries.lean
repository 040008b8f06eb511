/-
Every occurrence in a buffer has an entry.

The stretch that `Occurrence.argument?` finds begins one step after an opening
brace and ends at a closing brace.  Both are characters of one byte, so the
stretch can be cut out whatever the text and the occurrence are.  `reading` is
the entry without the error case that a buffer never meets.
-/
import Sectioning.Heading.Entry
import Sectioning.Proofs.Cursors

namespace Sectioning

namespace Cursor

variable {b : Buffer} {c d : Cursor}

theorem On.skipShortTitle? (hc : c.On b) (h : c.skipShortTitle? = some d) : d.On b := by
  obtain ⟨start, hstart, h⟩ := Option.bind_eq_some_iff.1 h
  obtain ⟨close, hclose, h⟩ := Option.bind_eq_some_iff.1 h
  obtain ⟨after, hafter, h⟩ := Option.bind_eq_some_iff.1 h
  have hon := ((hc.advance? hstart).1.findClose? hclose).1
  exact (hon.advance? hafter).1.skipBlank? h

theorem On.passShortTitle? (hc : c.On b) (h : c.passShortTitle? = some d) : d.On b := by
  unfold Cursor.passShortTitle? at h
  split at h
  · exact hc.skipShortTitle? h
  · cases h
    exact hc

/-- The stretch inside braces lies between two places that lie between
characters. -/
theorem On.bracedRange? {r : Range} (hc : c.On b) (h : c.bracedRange? = some r) :
    ∃ p q, b.IsBetween p ∧ b.IsBetween q ∧ r = .between p q := by
  unfold Cursor.bracedRange? at h
  split at h
  · next hopen =>
    obtain ⟨start, hstart, h⟩ := Option.bind_eq_some_iff.1 h
    obtain ⟨close, hclose, rfl⟩ := Option.map_eq_some_iff.1 h
    obtain ⟨ch, hch⟩ := hc.exists_first_of_advance? hopen (by decide) hstart
    have hon := (hc.advance? hstart).1
    obtain ⟨hon', hoctet, -⟩ := hon.findClose? hclose
    exact ⟨start.position, close.position, hon.isBetween hch, hon'.isBetween hoctet, rfl⟩
  · cases h

end Cursor

namespace Occurrence

/-- The argument is read by a reader on the buffer. -/
theorem exists_bracedRange? {b : Buffer} {o : Occurrence} {r : Range}
    (h : o.argument? b = some r) : ∃ c : Cursor, c.On b ∧ c.bracedRange? = some r := by
  unfold argument? at h
  split at h
  · obtain ⟨c, hc, h⟩ := Option.bind_eq_some_iff.1 h
    obtain ⟨d, hd, h⟩ := Option.bind_eq_some_iff.1 h
    obtain ⟨e, he, h⟩ := Option.bind_eq_some_iff.1 h
    have hon := (Buffer.cursorAt?_eq_some_iff.1 hc).2
    exact ⟨e, (hon.skipBlank? hd).passShortTitle? he, h⟩
  · cases h

/-- The argument is a part of the text. -/
theorem exists_splits_of_argument? {b : Buffer} {o : Occurrence} {r : Range}
    (h : o.argument? b = some r) : ∃ us ws vs, b.Splits r.start us (ws ++ vs) ∧
      b.Splits r.stop (us ++ ws) vs := by
  obtain ⟨c, hon, hr⟩ := exists_bracedRange? h
  obtain ⟨p, q, hp, hq, rfl⟩ := hon.bracedRange? hr
  exact Buffer.exists_splits_between hp hq

/-- A buffer hands out the argument of every occurrence. -/
theorem exists_excerpt? {b : Buffer} {o : Occurrence} {r : Range} (h : o.argument? b = some r) :
    ∃ raw, b.excerpt? r = some raw := by
  obtain ⟨us, ws, vs, hstart, hstop⟩ := exists_splits_of_argument? h
  exact ⟨ws, hstart.excerpt? hstop⟩

/-- The argument stands in the braces that the reader comes to. -/
theorem argument?_eq {b : Buffer} {o : Occurrence} {c : Cursor} (hgenuine : o.isGenuine b = true)
    (hpass : (b.cursorAt? o.delimiter).bind
      (fun c => c.skipBlank?.bind Cursor.passShortTitle?) = some c) :
    o.argument? b = c.bracedRange? := by
  obtain ⟨d, hd, hpass⟩ := Option.bind_eq_some_iff.1 hpass
  obtain ⟨e, he, hpass⟩ := Option.bind_eq_some_iff.1 hpass
  rw [argument?, if_pos hgenuine, hd, Option.bind_some, he, Option.bind_some, hpass,
    Option.bind_some]

/-- What an occurrence in a buffer turns out to be. -/
def reading (b : Buffer) (o : Occurrence) : Entry :=
  match o.argument? b with
  | none => .rejected
  | some r => o.entryOf b.id (Title.clean ((b.excerpt? r).getD []))

theorem entry_ofBuffer (b : Buffer) (o : Occurrence) :
    o.entry (.ofBuffer b) = .ok (o.reading b) := by
  unfold entry reading
  cases h : o.argument? (Source.ofBuffer b).buffer with
  | none =>
    have h' : o.argument? b = none := h
    rw [h']
  | some r =>
    have h' : o.argument? b = some r := h
    obtain ⟨raw, hraw⟩ := exists_excerpt? h'
    have hraw' : (Source.ofBuffer b).excerpt? r = some raw := hraw
    rw [h']
    simp only [hraw', hraw, Option.getD_some]
    rfl

theorem mapM_entry_ofBuffer (b : Buffer) (os : List Occurrence) :
    os.mapM (entry (.ofBuffer b)) = .ok (os.map (reading b)) := by
  induction os with
  | nil => rfl
  | cons o os ih =>
    rw [List.mapM_cons, entry_ofBuffer, ih]
    rfl

end Occurrence

namespace Buffer

/-- The entries of all occurrences in a buffer, in their order. -/
def entries (b : Buffer) : List Entry :=
  (Occurrence.scan b).map (Occurrence.reading b)

end Buffer

namespace Source

theorem entries_ofBuffer (b : Buffer) : (ofBuffer b).entries = .ok b.entries :=
  Occurrence.mapM_entry_ofBuffer b (Occurrence.scan b)

end Source
end Sectioning
