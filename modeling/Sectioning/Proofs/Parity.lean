/-
Commands that count, by the parity of backslashes.

Whether a command counts is found from the left: a backslash takes the octet after it
along, and a percent sign that is not taken ends the search.  The rule can be said without
that.  The longest run of backslashes right before the command has even length, and before
every percent sign to the left of it such a run has odd length (`Text.IsCommandPlace`).

A backslash and the octet it takes along change no parity to the right of them
(`backslashesBefore_pair`), so the search can be followed pair by pair
(`isGenuine_iff_isCommandPlace`).
-/
import Sectioning.Proofs.Anchors

namespace Sectioning
namespace Text

/-- The length of the longest run of backslashes that ends right before column `n`. -/
def backslashesBefore (os : List Octet) (n : Nat) : Nat :=
  ((os.take n).reverse.takeWhile (· == .first '\\')).length

/-- Column `n` of a line is not escaped, and every percent sign before it is. -/
structure IsCommandPlace (os : List Octet) (n : Nat) : Prop where
  even : backslashesBefore os n % 2 = 0
  odd_of_percent : ∀ j < n, os[j]? = some (.first '%') → backslashesBefore os j % 2 = 1

instance (os : List Octet) (n : Nat) : Decidable (IsCommandPlace os n) :=
  decidable_of_iff
    (backslashesBefore os n % 2 = 0 ∧
      ∀ j < n, os[j]? = some (.first '%') → backslashesBefore os j % 2 = 1)
    ⟨fun h => ⟨h.1, h.2⟩, fun h => ⟨h.even, h.odd_of_percent⟩⟩

theorem backslashesBefore_zero (os : List Octet) : backslashesBefore os 0 = 0 := by
  rw [backslashesBefore, List.take_zero]
  rfl

theorem backslashesBefore_cons_of_ne {o : Octet} (ho : o ≠ .first '\\') (os : List Octet)
    (n : Nat) : backslashesBefore (o :: os) (n + 1) = backslashesBefore os n := by
  rw [backslashesBefore, List.take_succ_cons, List.reverse_cons, List.takeWhile_append]
  split
  · next hall =>
    rw [List.takeWhile_cons_of_neg (by simpa using ho), List.append_nil, backslashesBefore, hall]
  · rfl

/-- A backslash right before the run makes it longer, one further to the left does not. -/
theorem backslashesBefore_backslash (os : List Octet) (n : Nat) :
    backslashesBefore (.first '\\' :: os) (n + 1) =
      if backslashesBefore os n = (os.take n).length then backslashesBefore os n + 1
      else backslashesBefore os n := by
  rw [backslashesBefore, List.take_succ_cons, List.reverse_cons, List.takeWhile_append,
    ← backslashesBefore, List.length_reverse]
  split
  · next hall =>
    rw [hall, List.length_append, List.length_reverse]
    rfl
  · rfl

theorem backslashesBefore_pair (o : Octet) (os : List Octet) (n : Nat) :
    backslashesBefore (.first '\\' :: o :: os) (n + 2) % 2 = backslashesBefore os n % 2 := by
  have hle : backslashesBefore os n ≤ (os.take n).length := by
    rw [← List.length_reverse]
    exact (List.takeWhile_sublist _).length_le
  by_cases ho : o = .first '\\'
  · -- both belong to the run, or neither does
    subst ho
    rw [backslashesBefore_backslash, backslashesBefore_backslash, List.take_succ_cons,
      List.length_cons]
    by_cases hall : backslashesBefore os n = (os.take n).length
    · rw [if_pos hall, if_pos (by omega)]
      omega
    · rw [if_neg hall, if_neg (by omega)]
  · rw [backslashesBefore_backslash, backslashesBefore_cons_of_ne ho, List.take_succ_cons,
      List.length_cons, if_neg (by omega)]

theorem isCommandPlace_pair {o : Octet} {os : List Octet} {n : Nat} :
    IsCommandPlace (.first '\\' :: o :: os) (n + 2) ↔ IsCommandPlace os n := by
  constructor
  · intro h
    refine ⟨?_, fun j hj hpercent => ?_⟩
    · rw [← backslashesBefore_pair o]
      exact h.even
    · rw [← backslashesBefore_pair o]
      exact h.odd_of_percent (j + 2) (by omega) hpercent
  · intro h
    refine ⟨?_, fun j hj hpercent => ?_⟩
    · rw [backslashesBefore_pair]
      exact h.even
    · rcases j with _ | _ | j
      · simp at hpercent
      · rfl
      · rw [backslashesBefore_pair]
        exact h.odd_of_percent j (by omega) hpercent

theorem isCommandPlace_cons {o : Octet} (hesc : o ≠ .first '\\') (hcom : o ≠ .first '%')
    {os : List Octet} {n : Nat} : IsCommandPlace (o :: os) (n + 1) ↔ IsCommandPlace os n := by
  constructor
  · intro h
    refine ⟨?_, fun j hj hpercent => ?_⟩
    · rw [← backslashesBefore_cons_of_ne hesc]
      exact h.even
    · rw [← backslashesBefore_cons_of_ne hesc]
      exact h.odd_of_percent (j + 1) (by omega) hpercent
  · intro h
    refine ⟨?_, fun j hj hpercent => ?_⟩
    · rw [backslashesBefore_cons_of_ne hesc]
      exact h.even
    · cases j with
      | zero =>
        rw [List.getElem?_cons_zero, Option.some.injEq] at hpercent
        exact absurd hpercent hcom
      | succ j =>
        rw [backslashesBefore_cons_of_ne hesc]
        exact h.odd_of_percent j (by omega) hpercent

/-- Whether a command may stand at a column depends on what is before it. -/
theorem isCommandPlace_append {os : List Octet} {n : Nat} (h : n ≤ os.length) (os' : List Octet) :
    IsCommandPlace (os ++ os') n ↔ IsCommandPlace os n := by
  have hrun : ∀ j ≤ n, backslashesBefore (os ++ os') j = backslashesBefore os j := by
    intro j hj
    rw [backslashesBefore, backslashesBefore, List.take_append_of_le_length (by omega)]
  have hget : ∀ j < n, (os ++ os')[j]? = os[j]? := by
    intro j hj
    exact List.getElem?_append_left (by omega)
  constructor
  · intro hplace
    refine ⟨by rw [← hrun n (Nat.le_refl n)]; exact hplace.even, fun j hj hpercent => ?_⟩
    rw [← hrun j (Nat.le_of_lt hj)]
    exact hplace.odd_of_percent j hj (by rwa [hget j hj])
  · intro hplace
    refine ⟨by rw [hrun n (Nat.le_refl n)]; exact hplace.even, fun j hj hpercent => ?_⟩
    rw [hrun j (Nat.le_of_lt hj)]
    exact hplace.odd_of_percent j hj (by rwa [← hget j hj])

/-- The search from the left finds what the parity of backslashes tells. -/
theorem isGenuine_iff_isCommandPlace {os : List Octet} {n : Nat} (h : n ≤ os.length) :
    isGenuine os n = true ↔ IsCommandPlace os n := by
  fun_induction isGenuine os n with
  | case1 os =>
    refine iff_of_true rfl ⟨?_, fun j hj => absurd hj (Nat.not_lt_zero j)⟩
    rw [backslashesBefore_zero]
  | case2 n => exact absurd h (Nat.not_succ_le_zero n)
  | case3 os =>
    refine iff_of_false Bool.false_ne_true fun hplace => ?_
    have heven := hplace.even
    rw [backslashesBefore_backslash, backslashesBefore_zero] at heven
    cases heven
  | case4 n => simp at h
  | case5 o os n ih =>
    rw [List.length_cons, List.length_cons] at h
    rw [isCommandPlace_pair]
    exact ih (by omega)
  | case6 o os n hesc =>
    refine iff_of_false Bool.false_ne_true fun hplace => ?_
    have hodd := hplace.odd_of_percent 0 (by omega) rfl
    rw [backslashesBefore_zero] at hodd
    cases hodd
  | case7 o os n hone htwo hmore hcom ih =>
    have hesc : o ≠ .first '\\' := by
      intro ho
      cases n with
      | zero => exact hone ho rfl
      | succ n =>
        cases os with
        | nil => exact htwo n ho rfl rfl
        | cons o' os => exact hmore o' os n ho rfl rfl
    rw [List.length_cons] at h
    rw [isCommandPlace_cons hesc hcom]
    exact ih (by omega)

example : IsCommandPlace (octets "50\\% \\\\\\section".toList) 7 ∧
    ¬ IsCommandPlace (octets "50\\\\% \\section".toList) 6 := by decide

end Text

/-- The stretch of the argument that a reader on the delimiter of a command comes to. -/
def Cursor.argument? (c : Cursor) : Option Range :=
  c.skipBlank?.bind fun c => c.passShortTitle?.bind bracedRange?

namespace Occurrence

theorem isGenuine_iff_of_line? {b : Buffer} {o : Occurrence} {l : List Char}
    (hline : b.line? o.range.start.row = some l)
    (hcolumn : o.range.start.column ≤ Text.byteLength l) :
    o.isGenuine b = true ↔ Text.IsCommandPlace (Text.octets l) o.range.start.column := by
  rw [isGenuine, hline, Option.any_some]
  exact Text.isGenuine_iff_isCommandPlace (by rwa [Text.length_octets])

/-- A form that is found begins on a line. -/
theorem At.exists_line? {b : Buffer} {o : Occurrence} (h : o.At b) :
    ∃ l, b.line? o.range.start.row = some l ∧ o.range.start.column ≤ Text.byteLength l := by
  obtain ⟨us, vs, -, hs, -⟩ := h
  obtain ⟨l, ls, hl⟩ := Text.exists_lines_eq_cons vs
  refine ⟨_, hs.line? hl, ?_⟩
  rw [hs.column_eq, Text.byteLength_append]
  omega

/-- On every line a command counts exactly if the backslashes right before it and those
before each percent sign to the left of it say so.  So of the commands that are found, those
behind an odd run of backslashes or behind a percent sign that is not escaped are rejected,
and of all others the argument is read. -/
theorem isGenuine_by_parity :
    (∀ (b : Buffer) (o : Occurrence) (l : List Char), b.line? o.range.start.row = some l →
      o.range.start.column ≤ Text.byteLength l →
      (o.isGenuine b = true ↔
        Text.IsCommandPlace (Text.octets l) o.range.start.column)) ∧
    ∀ (s : Source) (o : Occurrence), o ∈ scan s.buffer →
      ∃ l, s.buffer.line? o.range.start.row = some l ∧
        o.range.start.column ≤ Text.byteLength l ∧
        (¬ Text.IsCommandPlace (Text.octets l) o.range.start.column →
          o.entry s = .ok .rejected) ∧
        (Text.IsCommandPlace (Text.octets l) o.range.start.column →
          o.argument? s.buffer =
            (s.buffer.cursorAt? o.delimiter).bind Cursor.argument?) := by
  refine ⟨fun b o l => isGenuine_iff_of_line?, fun s o ho => ?_⟩
  obtain ⟨l, hline, hcolumn⟩ := (at_of_mem_scan ho).exists_line?
  have hiff := isGenuine_iff_of_line? hline hcolumn
  refine ⟨l, hline, hcolumn, fun hnot => ?_, fun hplace => ?_⟩
  · rw [entry, argument?, if_neg fun hgenuine => hnot (hiff.1 hgenuine)]
  · rw [argument?, if_pos (hiff.2 hplace)]
    rfl

end Occurrence
end Sectioning
