/-
Texts whose comments are not read.

A comment is read as text in two ways.  Scanning looks for the delimiter of a loose
command in the comments after its name, and a reader of an argument strays into a
comment.  A text in which neither happens at a genuine command is not exposed, and
its accepted entries do not depend on its comments (`Buffer.accepted_eq_of_alike`).
-/
import Sectioning.Proofs.Strays

namespace Sectioning

namespace Buffer

/-- Comments of the buffer are read as text: one is searched for the delimiter of
a command, or a reader strays into one. -/
inductive Exposed (b : Buffer) : Prop where
  | loose {p : Position} {us rest : List Char} {k : Keyword} :
      b.Splits p us ('\\' :: (k.name.toList ++ rest)) → b.isGenuine p = true →
      Occurrence.isLoose rest = true → b.Exposed
  | strays {o : Occurrence} : o ∈ Occurrence.scan b → o.isGenuine b = true → o.Strays b →
      b.Exposed

theorem Splits.exists_tracks {b b' : Buffer} {p : Position} {d : Char} {us vs : List Char}
    (h : b.Alike b') (hs : b.Splits p us (d :: vs)) (hd : d ≠ '\n')
    (hover : Mark.plain.after us ≠ .comment) :
    Option.Rel (Cursor.Tracks b b') (b.cursorAt? p) (b'.cursorAt? p) := by
  obtain ⟨us', vs', hs', -, hbare⟩ := h.exists_splits hs hover
  rw [Text.bare, Text.refill_cons [] hover] at hbare
  cases vs' with
  | nil =>
    rw [Text.refill_nil [] hover] at hbare
    cases hbare
  | cons d' vs' =>
    rw [Text.refill_cons [] hover, List.cons.injEq] at hbare
    obtain ⟨rfl, -⟩ := hbare
    obtain ⟨l, ls, hl⟩ := Text.exists_lines_eq_cons vs
    obtain ⟨l', ls', hl'⟩ := Text.exists_lines_eq_cons vs'
    have hc := hs.cursorAt? hd hl
    have hc' := hs'.cursorAt? hd hl'
    rw [hc, hc']
    exact Option.Rel.some ⟨(cursorAt?_eq_some_iff.1 hc).2, (cursorAt?_eq_some_iff.1 hc').2, rfl,
      hs.shows hd hover⟩

end Buffer

namespace Occurrence

variable {b b' : Buffer} {o : Occurrence}

/-- The delimiter of a genuine command that is not loose. -/
theorem At.exists_delimiter (hat : o.At b) (hgenuine : o.isGenuine b = true)
    (hfirm : FirmAt b o.range.start) :
    ∃ us d vs, b.Splits o.delimiter us (d :: vs) ∧ (d = '{' ∨ d = '[') ∧
      Mark.plain.after us = .plain := by
  obtain ⟨us, vs, form, hs, hform, -, hstop⟩ := hat
  obtain ⟨rest, part, rfl, hpart, rfl⟩ := exists_of_formAt? hform
  rw [ending?_of_not_isLoose (hfirm us o.keyword rest hs)] at hpart
  obtain ⟨lead, d, rfl, hd, hover⟩ := exists_of_firmEnding? hpart
  rw [← ending?_of_not_isLoose (hfirm us o.keyword rest hs)] at hpart
  obtain ⟨more, rfl⟩ := exists_append_of_ending? hpart
  have hone : d ≠ '\n' ∧ d.utf8Size = 1 := by rcases hd with rfl | rfl <;> decide
  have hsplit : '\\' :: (o.keyword.name.toList ++ (lead ++ [d])) =
      '\\' :: o.keyword.name.toList ++ lead ++ [d] := by simp
  rw [hsplit] at hstop
  have htext : '\\' :: (o.keyword.name.toList ++ (lead ++ [d] ++ more)) =
      ('\\' :: o.keyword.name.toList ++ lead) ++ (d :: more) := by simp
  rw [htext] at hs
  refine ⟨us ++ ('\\' :: o.keyword.name.toList ++ lead), d, more, ?_, hd, ?_⟩
  · rw [delimiter_eq hstop hone.1 hone.2]
    exact hs.steps
  · rw [Mark.after_append, hs.isGenuine_iff.1 hgenuine, Mark.after_append, after_name, hover]

/-- A genuine command that is not loose and in which no reader strays reads the
same in every buffer that differs in comments alone. -/
theorem At.reading_eq (h : b.Alike b') (hid : b'.id = b.id) (hat : o.At b)
    (hgenuine : o.isGenuine b = true) (hfirm : FirmAt b o.range.start) (hstrays : ¬ o.Strays b) :
    o.reading b' = o.reading b := by
  have hgenuine' : o.isGenuine b' = true := by
    obtain ⟨us, vs, -, hs, -⟩ := hat
    exact h.isGenuine hs hgenuine
  obtain ⟨us, d, vs, hs, hd, hplain⟩ := hat.exists_delimiter hgenuine hfirm
  have hne : d ≠ '\n' := by rcases hd with rfl | rfl <;> decide
  refine reading_eq_of_tracks h hid (by rw [hgenuine, hgenuine']) ?_ hstrays
  exact hs.exists_tracks h hne (by rw [hplain]; simp)

end Occurrence

namespace Buffer

/-- The entries of a buffer whose comments are not read do not depend on them. -/
theorem accepted_eq_of_alike {b b' : Buffer} (h : b.Alike b') (hid : b'.id = b.id)
    (hexposed : ¬ b.Exposed) : b'.accepted = b.accepted := by
  have hfirm : ∀ p, b.isGenuine p = true → Occurrence.FirmAt b p := by
    intro p hp us k rest hs
    rw [← Bool.not_eq_true]
    exact fun hloose => hexposed (.loose hs hp hloose)
  have hreading : ∀ o : Occurrence, o.At b → o.isGenuine b = true →
      o.reading b' = o.reading b := by
    intro o hat hgenuine
    exact hat.reading_eq h hid hgenuine (hfirm _ hgenuine)
      fun hs => hexposed (.strays (hat.mem_scan hgenuine) hgenuine hs)
  rw [accepted_eq_iff]
  intro e
  rw [mem_accepted_iff, mem_accepted_iff]
  constructor
  · rintro ⟨hne, o, hat', rfl⟩
    have hgenuine' := (Occurrence.reading_spec hne).1
    have hgenuine : o.isGenuine b = true := by
      obtain ⟨us', vs', -, hs', -⟩ := hat'
      exact h.symm.isGenuine hs' hgenuine'
    have hfirm' : Occurrence.FirmAt b' o.range.start :=
      (hfirm _ hgenuine).of_alike h hgenuine'
    have hat := hat'.of_alike h.symm hgenuine' hfirm'
    exact ⟨hne, o, hat, (hreading o hat hgenuine).symm⟩
  · rintro ⟨hne, o, hat, rfl⟩
    have hgenuine := (Occurrence.reading_spec hne).1
    exact ⟨hne, o, hat.of_alike h hgenuine (hfirm _ hgenuine), hreading o hat hgenuine⟩

end Buffer
end Sectioning
