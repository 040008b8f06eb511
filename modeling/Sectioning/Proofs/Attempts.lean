/-
Scanning loses no command.

Scanning passes over the text that a form covers, also if the form is rejected
later.  `attempts` does without that: it looks for a form at every byte of a
buffer, and finds exactly the forms that stand in it (`mem_attempts_iff`).  Of
these, scanning leaves out only such as are behind a percent sign or escaped, and
they would be rejected anyway (`At.mem_scan`).  Both lists are in the order of
their places, so what is accepted of them is the same list
(`accepted_attempts_eq`).
-/
import Sectioning.Proofs.Anchors

namespace Sectioning

namespace Occurrence

/-- The reported form that begins at a byte of a buffer, read on its own. -/
def attempt? (b : Buffer) (offset : Nat) : Option Occurrence :=
  (Text.dropBytes? offset b.text).bind fun cs =>
    (formAt? cs).bind fun (k, form) =>
      if isReported k form then
        (b.positionAt? offset).bind fun start =>
          (b.positionAt? (offset + Text.byteLength form)).map fun stop => ⟨k, ⟨start, stop⟩⟩
      else none

/-- The reported forms of a buffer, looked for at every byte. -/
def attempts (b : Buffer) : List Occurrence :=
  (List.range (Text.byteLength b.text + 1)).filterMap (attempt? b)

section

variable {b : Buffer} {o : Occurrence}

theorem attempt?_of_form {p : Position} {us vs form : List Char} {k : Keyword}
    (hs : b.Splits p us vs) (hform : formAt? vs = some (k, form)) :
    attempt? b (Text.byteLength us) =
      if isReported k form then some ⟨k, ⟨p, p.afterAll form⟩⟩ else none := by
  obtain ⟨ws, rfl⟩ := exists_append_of_formAt? hform
  have hstop := hs.steps.positionAt?
  rw [Text.byteLength_append] at hstop
  rw [attempt?, hs.text_eq, Text.dropBytes?_append, Option.bind_some, hform, Option.bind_some]
  simp only [hs.positionAt?, hstop, Option.bind_some, Option.map_some]

theorem exists_of_attempt? {offset : Nat} (h : attempt? b offset = some o) :
    o.At b ∧ ∃ us vs, b.Splits o.range.start us vs ∧ Text.byteLength us = offset := by
  obtain ⟨vs, hvs, hrest⟩ := Option.bind_eq_some_iff.1 h
  obtain ⟨us, htext, rfl⟩ := Text.exists_append_of_dropBytes? hvs
  obtain ⟨⟨k, form⟩, hform, -⟩ := Option.bind_eq_some_iff.1 hrest
  have hs : b.Splits (Position.start.afterAll us) us vs := ⟨htext, rfl⟩
  rw [attempt?_of_form hs hform] at h
  split at h
  · next hreported =>
    cases h
    exact ⟨⟨us, vs, form, hs, hform, hreported, rfl⟩, us, vs, hs, rfl⟩
  · cases h

theorem mem_attempts_iff : o ∈ attempts b ↔ o.At b := by
  rw [attempts, List.mem_filterMap]
  constructor
  · rintro ⟨offset, -, h⟩
    exact (exists_of_attempt? h).1
  · rintro ⟨us, vs, form, hs, hform, hreported, hstop⟩
    have hle : Text.byteLength us ≤ Text.byteLength b.text := by
      rw [hs.text_eq, Text.byteLength_append]
      omega
    refine ⟨Text.byteLength us, List.mem_range.2 (Nat.lt_succ_of_le hle), ?_⟩
    rw [attempt?_of_form hs hform, if_pos hreported, ← hstop]

theorem pairwise_attempts (b : Buffer) :
    (attempts b).Pairwise fun o o' => o.range.start < o'.range.start := by
  refine List.Pairwise.filterMap _ ?_ List.pairwise_lt_range
  intro offset offset' hlt o ho o' ho'
  obtain ⟨-, us, vs, hs, rfl⟩ := exists_of_attempt? ho
  obtain ⟨-, us', vs', hs', rfl⟩ := exists_of_attempt? ho'
  exact hs.lt_of_byteLength_lt hs' hlt

theorem accepted_attempts_eq (b : Buffer) :
    ((attempts b).map (reading b)).filter Entry.isAccepted = b.accepted := by
  refine (pairwise_filter_reading (pairwise_attempts b)).eq_of_mem_iff b.pairwise_accepted ?_
  intro e
  rw [Buffer.mem_accepted_iff, List.mem_filter, List.mem_map]
  simp only [mem_attempts_iff, Entry.isAccepted, bne_iff_ne]
  exact and_comm

/-- Scanning and looking at every byte accept the same entries in the same order.
A form that is covered by another one is rejected. -/
theorem filter_scan_eq_filter_attempts (b : Buffer) :
    (∃ found tried, (scan b).mapM (entry (.ofBuffer b)) = .ok found ∧
      (attempts b).mapM (entry (.ofBuffer b)) = .ok tried ∧
      found.filter Entry.isAccepted = tried.filter Entry.isAccepted) ∧
    ∀ o ∈ attempts b, o ∉ scan b → o.entry (.ofBuffer b) = .ok .rejected := by
  refine ⟨⟨_, _, mapM_entry_ofBuffer b (scan b), mapM_entry_ofBuffer b (attempts b),
    (accepted_attempts_eq b).symm⟩, fun o ho hscan => ?_⟩
  rw [entry_ofBuffer]
  by_contra hne
  have hgenuine := (reading_spec fun hrejected => hne (congrArg _ hrejected)).1
  exact hscan ((mem_attempts_iff.1 ho).mem_scan hgenuine)

end
end Occurrence
end Sectioning
