/-
Cursors as the user writes them, and locations as a view tells them.

A number may stand in blanks and behind a plus sign, and its digits may begin with
zeros; `Writes` says what is a number and which one.  A cursor is read exactly if its
line and its column are numbers from one on that have 64 bits (`parse_eq_ok_iff`).
The digits that a location is written in are such numbers, so reading the line and
column of a heading gives back its anchor (`parse_reads_back`).
-/
import Sectioning.Program.CursorArgument
import Sectioning.Proofs.Printed
import Sectioning.View.State

namespace Sectioning
namespace CursorArgument

/-! ## Numbers -/

/-- The text `cs` writes `n`: its digits, perhaps with a plus sign before them and blanks
on both sides. -/
def Writes (cs : List Char) (n : Nat) : Prop :=
  ∃ before sign digits behind, cs = before ++ (sign ++ digits ++ behind) ∧
    Text.isAllBlank before = true ∧ Text.isAllBlank behind = true ∧
    (sign = [] ∨ sign = ['+']) ∧ digits ≠ [] ∧ (∀ c ∈ digits, c.isDigit = true) ∧
    n = Nat.ofDigitChars 10 digits 0

theorem isAlphanum_of_isDigit {c : Char} (h : c.isDigit = true) : c.isAlphanum = true := by
  change (c.isAlpha || c.isDigit) = true
  rw [h, Bool.or_true]

theorem ne_of_isDigit {c d : Char} (hc : c.isDigit = true) (hd : d.isDigit = false) : c ≠ d := by
  rintro rfl
  rw [hc] at hd
  cases hd

theorem ofDigits_eq (cs : List Char) : ofDigits cs = Nat.ofDigitChars 10 cs 0 := by
  rw [ofDigits, Nat.ofDigitChars_eq_foldl]
  simp only [Nat.mul_comm]

theorem numeral?_eq_some_iff {cs : List Char} {n : Nat} :
    numeral? cs = some n ↔ cs ≠ [] ∧ (∀ c ∈ cs, c.isDigit = true) ∧
      n = Nat.ofDigitChars 10 cs 0 ∧ n < UInt64.size := by
  have hill : (cs.isEmpty || !cs.all Char.isDigit) = true ↔
      ¬ (cs ≠ [] ∧ ∀ c ∈ cs, c.isDigit = true) := by
    rw [Bool.or_eq_true, List.isEmpty_iff, Bool.not_eq_true', ← Bool.not_eq_true,
      List.all_eq_true, not_and_or, not_not]
  have hbound : bound = UInt64.size := rfl
  unfold numeral?
  rw [ofDigits_eq, hbound]
  constructor
  · intro h
    split at h
    · cases h
    · next hwell =>
      obtain ⟨hne, hdigits⟩ := not_not.1 (mt hill.2 hwell)
      split at h
      · next hlt =>
        cases h
        exact ⟨hne, hdigits, rfl, hlt⟩
      · cases h
  · rintro ⟨hne, hdigits, rfl, hlt⟩
    rw [if_neg (fun h => hill.1 h ⟨hne, hdigits⟩), if_pos hlt]

variable {cs line column : List Char} {n : Nat}

theorem number?_eq_some_iff : number? cs = some n ↔ Writes cs n ∧ n < UInt64.size := by
  constructor
  · intro h
    obtain ⟨before, behind, hbefore, hbehind, hcs⟩ := Text.exists_eq_append_trim cs
    unfold number? at h
    split at h
    · next digits htrim =>
      obtain ⟨hne, hdigits, hn, hlt⟩ := numeral?_eq_some_iff.1 h
      refine ⟨⟨before, ['+'], digits, behind, ?_, hbefore, hbehind, Or.inr rfl, hne, hdigits, hn⟩,
        hlt⟩
      rw [hcs, htrim]
      rfl
    · obtain ⟨hne, hdigits, hn, hlt⟩ := numeral?_eq_some_iff.1 h
      exact ⟨⟨before, [], _, behind, hcs, hbefore, hbehind, Or.inl rfl, hne, hdigits, hn⟩, hlt⟩
  · rintro ⟨⟨before, sign, digits, behind, rfl, hbefore, hbehind, hsign, hne, hdigits, hn⟩, hlt⟩
    have hnumeral : numeral? digits = some n :=
      numeral?_eq_some_iff.2 ⟨hne, hdigits, hn, hlt⟩
    have hfilled : ∀ c ∈ sign ++ digits, isBlank c = false := by
      intro c hc
      rcases List.mem_append.1 hc with hc | hc
      · rcases hsign with rfl | rfl
        · cases hc
        · rw [List.mem_singleton.1 hc]
          rfl
      · exact Manuscript.isBlank_of_isAlphanum (isAlphanum_of_isDigit (hdigits c hc))
    rw [number?, Text.trim_padded hbefore hbehind hfilled (by simp [hne])]
    rcases hsign with rfl | rfl
    · obtain ⟨d, ds, rfl⟩ := List.exists_cons_of_ne_nil hne
      have hd : d ≠ '+' := ne_of_isDigit (hdigits d List.mem_cons_self) rfl
      rw [List.nil_append]
      split
      · next heq => exact absurd (List.cons.inj heq).1 hd
      · exact hnumeral
    · exact hnumeral

theorem writes_toDigits (n : Nat) : Writes (Nat.toDigits 10 n) n :=
  ⟨[], [], Nat.toDigits 10 n, [], by simp, rfl, rfl, Or.inl rfl, Nat.toDigits_ne_nil,
    fun _ hc => Nat.isDigit_of_mem_toDigits (by decide) (by decide) hc,
    (Nat.ofDigitChars_toDigits (by decide) (by decide)).symm⟩

/-! ## Lines and columns -/

/-- A text is divided at its first colon.  Without a colon all of it is the line, and the
column is one. -/
def Divides (cs line column : List Char) : Prop :=
  ':' ∉ line ∧ (cs = line ++ ':' :: column ∨ cs = line ∧ column = ['1'])

theorem parts_eq_iff : parts cs = (line, column) ↔ Divides cs line column := by
  constructor
  · intro h
    obtain ⟨rfl, rfl⟩ := Prod.mk.inj h
    have hsplit : cs.takeWhile (· != ':') ++ cs.dropWhile (· != ':') = cs :=
      List.takeWhile_append_dropWhile
    refine ⟨fun hmem => by simpa using List.mem_takeWhile_imp hmem, ?_⟩
    cases hrest : cs.dropWhile (· != ':') with
    | nil =>
      rw [hrest, List.append_nil] at hsplit
      exact Or.inr ⟨hsplit.symm, rfl⟩
    | cons d ds =>
      have hd := List.head?_dropWhile_not (· != ':') cs
      rw [hrest] at hd
      have hcolon : d = ':' := by simpa using hd
      rw [hrest, hcolon] at hsplit
      exact Or.inl hsplit.symm
  · rintro ⟨hline, hcs⟩
    have hbefore : ∀ c ∈ line, (c != ':') = true := fun c hc =>
      bne_iff_ne.2 (ne_of_mem_of_not_mem hc hline)
    rcases hcs with rfl | ⟨rfl, rfl⟩
    · rw [parts, List.takeWhile_append_of_pos hbefore, List.dropWhile_append_of_pos hbefore]
      simp
    · rw [parts, List.takeWhile_eq_self_iff.2 hbefore, List.dropWhile_eq_nil_iff.2 hbefore]
      rfl

/-! ## Cursors -/

/-- The text `cs` is a cursor with the line `l` and the column `c`. -/
def Spells (cs : List Char) (l c : Nat) : Prop :=
  ∃ line column, Divides cs line column ∧ Writes line l ∧ Writes column c

theorem parse_eq_ok_iff {raw : String} {p : Position} :
    parse raw = .ok p ↔ ∃ l c, Spells raw.toList l c ∧ (1 ≤ l ∧ l < UInt64.size) ∧
      (1 ≤ c ∧ c < UInt64.size) ∧ p = ⟨l - 1, c - 1⟩ := by
  constructor
  · intro h
    cases hparts : parts raw.toList with
    | mk line column =>
      unfold parse at h
      rw [hparts] at h
      cases hl : number? line with
      | none => simp [hl] at h
      | some l =>
        cases hc : number? column with
        | none => simp [hl, hc] at h
        | some c =>
          obtain ⟨hline, hlt⟩ := number?_eq_some_iff.1 hl
          obtain ⟨hcolumn, hlt'⟩ := number?_eq_some_iff.1 hc
          simp only [hl, hc] at h
          split at h
          · cases h
          · cases h
            have hspells : Spells raw.toList l c :=
              ⟨line, column, parts_eq_iff.1 hparts, hline, hcolumn⟩
            exact ⟨l, c, hspells, ⟨by omega, hlt⟩, ⟨by omega, hlt'⟩, rfl⟩
  · rintro ⟨l, c, ⟨line, column, hdivides, hl, hc⟩, ⟨hone, hlt⟩, ⟨hone', hlt'⟩, rfl⟩
    rw [parse, parts_eq_iff.2 hdivides]
    simp only [number?_eq_some_iff.2 ⟨hl, hlt⟩, number?_eq_some_iff.2 ⟨hc, hlt'⟩]
    rw [if_neg (by omega)]

theorem colon_notMem_toDigits (n : Nat) : ':' ∉ Nat.toDigits 10 n := by
  intro h
  exact absurd (Nat.isDigit_of_mem_toDigits (by decide) (by decide) h) (by decide)

/-- The digits of a line and of a column with a colon between. -/
theorem spells_digits (l c : Nat) : Spells (toString l ++ ":" ++ toString c).toList l c := by
  refine ⟨Nat.toDigits 10 l, Nat.toDigits 10 c, ⟨colon_notMem_toDigits l, Or.inl ?_⟩,
    writes_toDigits l, writes_toDigits c⟩
  simp

/-- A cursor is read exactly if its line and column are numbers from one on with 64 bits, and
what a view tells behind the name of a document is the cursor of the heading there. -/
theorem parse_reads_back :
    (∀ (raw : String) (p : Position), parse raw = .ok p ↔
      ∃ l c, Spells raw.toList l c ∧ (1 ≤ l ∧ l < UInt64.size) ∧ (1 ≤ c ∧ c < UInt64.size) ∧
        p = ⟨l - 1, c - 1⟩) ∧
    ∀ (v : View) (i : Nat) (h : Heading), v.outline.get? i = some h →
      h.anchor.row < UInt64.size - 1 → h.anchor.column < UInt64.size - 1 →
      ∃ place, v.location? i = some (h.source.name ++ ":" ++ place) ∧
        place.toList.count ':' = 1 ∧ parse place = .ok h.anchor := by
  refine ⟨fun raw p => parse_eq_ok_iff, fun v i h hget hrow hcolumn => ?_⟩
  refine ⟨toString (h.anchor.row + 1) ++ ":" ++ toString (h.anchor.column + 1), ?_, ?_, ?_⟩
  · rw [View.location?, hget]
    simp [String.append_assoc]
  · simp [List.count_eq_zero.2 (colon_notMem_toDigits _)]
  · exact parse_eq_ok_iff.2
      ⟨_, _, spells_digits _ _, ⟨by omega, by omega⟩, ⟨by omega, by omega⟩, rfl⟩

/-- A heading on the last line that a cursor can name, in a document with a colon in its
name. -/
def remote : View :=
  .start (.ofHeadings [⟨"a", 3, ⟨18446744073709551614, 0⟩, ⟨"c:a.tex"⟩⟩]) ⟨"main.tex"⟩

theorem spells_padded :
    Spells "\u3000+18446744073709551615\t:007".toList 18446744073709551615 7 := by
  refine ⟨"\u3000+18446744073709551615\t".toList, "007".toList,
    ⟨by decide, Or.inl (by decide)⟩, ?_, ?_⟩
  · exact ⟨['\u3000'], ['+'], "18446744073709551615".toList, ['\t'], by decide, by decide,
      by decide, Or.inr rfl, by decide, List.all_eq_true.1 (by decide), by decide⟩
  · exact ⟨[], [], "007".toList, [], by decide, rfl, rfl, Or.inl rfl, by decide,
      List.all_eq_true.1 (by decide), by decide⟩

theorem parse_remote :
    parse "\u3000+18446744073709551615\t:007" = .ok ⟨18446744073709551614, 6⟩ ∧
    ∃ place, remote.location? 0 = some ("c:a.tex" ++ ":" ++ place) ∧
      place.toList.count ':' = 1 ∧ parse place = .ok ⟨18446744073709551614, 0⟩ := by
  obtain ⟨hread, hlocation⟩ := parse_reads_back
  refine ⟨(hread _ _).2 ⟨_, _, spells_padded, by decide, by decide, rfl⟩, ?_⟩
  exact hlocation remote 0 _ rfl (by decide) (by decide)

end CursorArgument
end Sectioning
