/-
What can stand between the name of a command and its delimiter.

A gap is taken apart into the text that it covers and the text behind it.  The
text up to the delimiter of a form lies in the gaps, so every backslash in it
stands in a comment (`ending?_backslash`).  That is why a form never hides
another command.
-/
import Mathlib.Data.List.TakeWhile
import Sectioning.Proofs.Forms
import Sectioning.Proofs.Marks

namespace Sectioning
namespace Occurrence

/-! ## Gaps -/

/-- What a gap at the start of a text covers. -/
def covered (inComment : Bool) (cs : List Char) : List Char :=
  (gap inComment cs).1

/-- What stands behind a gap at the start of a text. -/
def behind (inComment : Bool) (cs : List Char) : List Char :=
  (gap inComment cs).2

/-- Whether a gap that starts in a comment or not goes on over `c`. -/
def goesOn (inComment : Bool) (c : Char) : Bool :=
  inComment || isBlank c || c == '%'

/-- Whether the place after `c` in a gap is in a comment. -/
def commentAfter (inComment : Bool) (c : Char) : Bool :=
  if inComment then c != '\n' else c == '%'

section

variable {inComment : Bool} {c d : Char} {cs : List Char}

/-- A gap goes on over a blank, and a blank begins no comment. -/
theorem goesOn_of_isBlank (h : isBlank c = true) :
    goesOn false c = true ∧ commentAfter false c = false := by
  have hcom : c ≠ '%' := ne_of_isBlank h rfl
  simp [goesOn, commentAfter, h, hcom]

theorem covered_cons (h : goesOn inComment c = true) (cs : List Char) :
    covered inComment (c :: cs) = c :: covered (commentAfter inComment c) cs := by
  rw [goesOn] at h
  rw [covered, gap, if_pos h]
  rfl

theorem behind_cons (h : goesOn inComment c = true) (cs : List Char) :
    behind inComment (c :: cs) = behind (commentAfter inComment c) cs := by
  rw [goesOn] at h
  rw [behind, gap, if_pos h]
  rfl

theorem covered_stop (h : ¬ goesOn inComment c = true) (cs : List Char) :
    covered inComment (c :: cs) = [] := by
  rw [goesOn] at h
  rw [covered, gap, if_neg h]

theorem behind_stop (h : ¬ goesOn inComment c = true) (cs : List Char) :
    behind inComment (c :: cs) = c :: cs := by
  rw [goesOn] at h
  rw [behind, gap, if_neg h]

theorem covered_append_behind (inComment : Bool) (cs : List Char) :
    covered inComment cs ++ behind inComment cs = cs := by
  induction cs generalizing inComment with
  | nil => rfl
  | cons c cs ih =>
    by_cases h : goesOn inComment c = true
    · rw [covered_cons h, behind_cons h, List.cons_append, ih]
    · rw [covered_stop h, behind_stop h, List.nil_append]

/-- In a comment of a gap the mark is that of a comment, and no gap ends in a
backslash that escapes. -/
def Follows (inComment : Bool) (m : Mark) : Prop :=
  if inComment then m = .comment else m ≠ .escaped

theorem Follows.next {m : Mark} (h : Follows inComment m) (hc : goesOn inComment c = true) :
    Follows (commentAfter inComment c) (m.next c) := by
  cases inComment with
  | true =>
    have hm : m = .comment := h
    subst hm
    by_cases hn : c = '\n'
    · subst hn
      exact (by simp : Mark.plain ≠ .escaped)
    · have hafter : commentAfter true c = true := by simp [commentAfter, hn]
      rw [hafter]
      exact Mark.next_comment hn
  | false =>
    have hm : m ≠ .escaped := h
    by_cases hcom : c = '%'
    · subst hcom
      show m.next '%' = .comment
      cases m with
      | plain => rfl
      | escaped => exact absurd rfl hm
      | comment => rfl
    · have hafter : commentAfter false c = false := by simp [commentAfter, hcom]
      rw [hafter]
      intro hesc
      have hback := (Mark.next_eq_escaped hesc).2
      subst hback
      exact absurd hc (by decide)

/-- A backslash in a gap stands in a comment. -/
theorem Follows.after_backslash {m : Mark} (h : Follows inComment m) {us vs : List Char}
    (hus : covered inComment cs = us ++ '\\' :: vs) : m.after us = .comment := by
  induction us generalizing inComment m cs with
  | nil =>
    cases cs with
    | nil => cases hus
    | cons c cs =>
      by_cases hc : goesOn inComment c = true
      · rw [covered_cons hc, List.nil_append, List.cons.injEq] at hus
        obtain ⟨rfl, -⟩ := hus
        cases inComment with
        | true => exact h
        | false => exact absurd hc (by decide)
      · rw [covered_stop hc] at hus
        cases hus
  | cons u us ih =>
    cases cs with
    | nil => cases hus
    | cons c cs =>
      by_cases hc : goesOn inComment c = true
      · rw [covered_cons hc, List.cons_append, List.cons.injEq] at hus
        obtain ⟨rfl, hus⟩ := hus
        exact ih (h.next hc) hus
      · rw [covered_stop hc] at hus
        cases hus

end

/-! ## The last delimiter -/

theorem upToLast?_eq_none_iff {d : Char} {cs : List Char} : upToLast? d cs = none ↔ d ∉ cs := by
  induction cs with
  | nil => simp [upToLast?]
  | cons c cs ih =>
    rw [upToLast?, List.mem_cons, not_or, ← ih]
    cases h : upToLast? d cs with
    | none =>
      by_cases hc : c = d
      · simp [hc]
      · simp [hc, Ne.symm hc]
    | some part => simp

theorem upToLast?_append {d : Char} {vs : List Char} (h : d ∉ vs) (us : List Char) :
    upToLast? d (us ++ d :: vs) = some (us ++ [d]) := by
  induction us with
  | nil => rw [List.nil_append, upToLast?, upToLast?_eq_none_iff.2 h, if_pos rfl, List.nil_append]
  | cons u us ih => rw [List.cons_append, upToLast?, ih, List.cons_append]

theorem exists_of_upToLast? {d : Char} {cs part : List Char} (h : upToLast? d cs = some part) :
    ∃ us vs, cs = us ++ d :: vs ∧ d ∉ vs ∧ part = us ++ [d] := by
  induction cs generalizing part with
  | nil => cases h
  | cons c cs ih =>
    rw [upToLast?] at h
    cases hcs : upToLast? d cs with
    | some part' =>
      rw [hcs] at h
      cases h
      obtain ⟨us, vs, rfl, hvs, rfl⟩ := ih hcs
      exact ⟨c :: us, vs, rfl, hvs, rfl⟩
    | none =>
      rw [hcs] at h
      by_cases hc : c = d
      · rw [if_pos hc] at h
        cases h
        exact ⟨[], cs, by rw [hc]; rfl, upToLast?_eq_none_iff.1 hcs, by rw [hc]; rfl⟩
      · rw [if_neg hc] at h
        cases h

/-! ## Endings -/

theorem gapTo?_eq (d : Char) (cs : List Char) :
    gapTo? d cs = upToLast? d (covered false cs ++ (behind false cs).take 1) := rfl

theorem starredGap?_star {cs vs : List Char} (h : behind false cs = '*' :: vs) :
    starredGap? cs = (gapTo? '{' vs).map fun part => covered false cs ++ '*' :: part := by
  have hgap : gap false cs = (covered false cs, '*' :: vs) := by
    rw [← h]
    rfl
  rw [starredGap?, hgap]
  rfl

theorem starredGap?_of_ne {cs : List Char} (h : ∀ vs, behind false cs ≠ '*' :: vs) :
    starredGap? cs = none := by
  rw [starredGap?]
  split
  · next taken rest hgap =>
    exact absurd (congrArg Prod.snd hgap) (h rest)
  · rfl

theorem exists_of_gapTo? {d : Char} {cs part : List Char} (h : gapTo? d cs = some part) :
    ∃ us vs, part = us ++ [d] ∧ covered false cs = us ++ vs := by
  rw [gapTo?_eq] at h
  obtain ⟨us, vs, htaken, -, rfl⟩ := exists_of_upToLast? h
  rcases List.append_eq_append_iff.1 htaken with ⟨as, hus, htake⟩ | ⟨bs, hcov, -⟩
  · cases as with
    | nil => exact ⟨us, [], rfl, by rw [hus, List.append_nil, List.append_nil]⟩
    | cons a as =>
      -- the piece behind the gap has at most one character
      have hlen := congrArg List.length htake
      rw [List.length_take, List.length_append, List.length_cons, List.length_cons] at hlen
      omega
  · exact ⟨us, bs, rfl, hcov⟩

theorem gapTo?_backslash {d : Char} (hd : d ≠ '\\') {cs part us vs : List Char} {m : Mark}
    (hm : m ≠ .escaped) (h : gapTo? d cs = some part) (hpart : part = us ++ '\\' :: vs) :
    m.after us = .comment := by
  obtain ⟨lead, more, rfl, hcov⟩ := exists_of_gapTo? h
  have hfollows : Follows false m := hm
  rcases List.append_eq_append_iff.1 hpart with ⟨as, rfl, has⟩ | ⟨bs, rfl, hbs⟩
  · cases as with
    | nil =>
      rw [List.nil_append, List.cons.injEq] at has
      exact absurd has.1 hd
    | cons a as =>
      rw [List.cons_append, List.cons.injEq] at has
      exact absurd has.2 (by simp)
  · cases bs with
    | nil =>
      rw [List.nil_append, List.cons.injEq] at hbs
      exact absurd hbs.1.symm hd
    | cons x xs =>
      rw [List.cons_append, List.cons.injEq] at hbs
      obtain ⟨rfl, -⟩ := hbs
      refine @Follows.after_backslash false cs m hfollows us (xs ++ more) ?_
      rw [hcov, List.append_assoc, List.cons_append]

theorem ending?_eq (cs : List Char) :
    ending? cs = (starredGap? cs).or
      ((gapTo? '{' cs).or ((gapTo? '[' cs).or (blanksToComment? cs))) := by
  simp [ending?]

/-- An ending is one of four kinds. -/
theorem ending?_cases {cs part : List Char} (h : ending? cs = some part) :
    (∃ vs lead, behind false cs = '*' :: vs ∧ gapTo? '{' vs = some lead ∧
      part = covered false cs ++ '*' :: lead) ∨
    gapTo? '{' cs = some part ∨ gapTo? '[' cs = some part ∨
    ∃ vs, cs = cs.takeWhile isBlank ++ '%' :: vs ∧ part = cs.takeWhile isBlank ++ ['%'] := by
  rw [ending?_eq, Option.or_eq_some_iff, Option.or_eq_some_iff, Option.or_eq_some_iff] at h
  rcases h with h | ⟨-, h | ⟨-, h | ⟨-, h⟩⟩⟩
  · left
    by_cases hstar : ∃ vs, behind false cs = '*' :: vs
    · obtain ⟨vs, hvs⟩ := hstar
      rw [starredGap?_star hvs, Option.map_eq_some_iff] at h
      obtain ⟨lead, hlead, rfl⟩ := h
      exact ⟨vs, lead, hvs, hlead, rfl⟩
    · rw [starredGap?_of_ne fun vs hvs => hstar ⟨vs, hvs⟩] at h
      cases h
  · exact Or.inr (Or.inl h)
  · exact Or.inr (Or.inr (Or.inl h))
  · rw [blanksToComment?] at h
    split at h
    · next vs hvs =>
      cases h
      refine Or.inr (Or.inr (Or.inr ⟨vs, ?_, rfl⟩))
      rw [← hvs, List.takeWhile_append_dropWhile]
    · cases h

/-- Between the name of a command and its delimiter every backslash stands in a
comment. -/
theorem ending?_backslash {cs part us vs : List Char} {m : Mark} (hm : m ≠ .escaped)
    (h : ending? cs = some part) (hpart : part = us ++ '\\' :: vs) : m.after us = .comment := by
  rcases ending?_cases h with ⟨ws, lead, -, hlead, hstar⟩ | h | h | ⟨ws, -, h⟩
  · have hfollows : Follows false m := hm
    rw [hstar] at hpart
    rcases List.append_eq_append_iff.1 hpart with ⟨as, rfl, has⟩ | ⟨bs, hcov, hbs⟩
    · cases as with
      | nil => simp at has
      | cons a as =>
        rw [List.cons_append, List.cons.injEq] at has
        obtain ⟨rfl, has⟩ := has
        have hnext : (m.after (covered false cs)).next '*' ≠ .escaped :=
          fun hesc => absurd (Mark.next_eq_escaped hesc).2 (by decide)
        rw [Mark.after_append, Mark.after_cons]
        exact gapTo?_backslash (by decide) hnext hlead has
    · cases bs with
      | nil => simp at hbs
      | cons x xs =>
        rw [List.cons_append, List.cons.injEq] at hbs
        obtain ⟨rfl, -⟩ := hbs
        exact hfollows.after_backslash hcov
  · exact gapTo?_backslash (by decide) hm h hpart
  · exact gapTo?_backslash (by decide) hm h hpart
  · exfalso
    have hmem : '\\' ∈ cs.takeWhile isBlank ++ ['%'] := by
      rw [← h, hpart]
      simp
    rw [List.mem_append, List.mem_singleton] at hmem
    rcases hmem with hmem | hmem
    · have hblank := List.mem_takeWhile_imp hmem
      exact absurd hblank (by decide)
    · exact absurd hmem (by decide)

theorem exists_append_of_gapTo? {d : Char} {cs part : List Char} (h : gapTo? d cs = some part) :
    ∃ vs, cs = part ++ vs := by
  rw [gapTo?_eq] at h
  obtain ⟨us, vs, htaken, -, rfl⟩ := exists_of_upToLast? h
  refine ⟨vs ++ (behind false cs).drop 1, ?_⟩
  calc cs = covered false cs ++ behind false cs := (covered_append_behind false cs).symm
    _ = covered false cs ++ (behind false cs).take 1 ++ (behind false cs).drop 1 := by
      rw [List.append_assoc, List.take_append_drop]
    _ = us ++ [d] ++ (vs ++ (behind false cs).drop 1) := by
      rw [htaken]
      simp

theorem exists_append_of_ending? {cs part : List Char} (h : ending? cs = some part) :
    ∃ vs, cs = part ++ vs := by
  rcases ending?_cases h with ⟨ws, lead, hbehind, hlead, rfl⟩ | h | h | ⟨vs, hcs, rfl⟩
  · obtain ⟨vs, rfl⟩ := exists_append_of_gapTo? hlead
    refine ⟨vs, ?_⟩
    rw [List.append_assoc, List.cons_append, ← hbehind, covered_append_behind]
  · exact exists_append_of_gapTo? h
  · exact exists_append_of_gapTo? h
  · exact ⟨vs, by rw [List.append_assoc]; exact hcs⟩

/-- An ending ends in an opening delimiter, or else it is blanks and a percent sign. -/
theorem exists_of_ending? {cs part : List Char} (h : ending? cs = some part) :
    ∃ us d, part = us ++ [d] ∧
      (d = '{' ∨ d = '[' ∨ d = '%' ∧ ∀ c ∈ us, isBlank c = true) := by
  rcases ending?_cases h with ⟨ws, lead, -, hlead, rfl⟩ | h | h | ⟨vs, -, rfl⟩
  · obtain ⟨us, -, rfl, -⟩ := exists_of_gapTo? hlead
    exact ⟨covered false cs ++ '*' :: us, '{', by simp, Or.inl rfl⟩
  · obtain ⟨us, -, rfl, -⟩ := exists_of_gapTo? h
    exact ⟨us, '{', rfl, Or.inl rfl⟩
  · obtain ⟨us, -, rfl, -⟩ := exists_of_gapTo? h
    exact ⟨us, '[', rfl, Or.inr (Or.inl rfl)⟩
  · exact ⟨_, '%', rfl, Or.inr (Or.inr ⟨rfl, fun c hc => List.mem_takeWhile_imp hc⟩)⟩

theorem isReported_concat (k : Keyword) (us : List Char) (d : Char) :
    isReported k (us ++ [d]) = !(k.isInclusion && d == '%') := by
  rw [isReported, List.getLast?_concat]
  rfl

/-- What can stand right after the name of a command: a blank, a star, a percent
sign or an opening delimiter. -/
def endsName (c : Char) : Bool :=
  isBlank c || c == '*' || c == '%' || c == '{' || c == '['

theorem eq_of_gapTo?_cons {c d : Char} {cs part : List Char} (hc : ¬ goesOn false c = true)
    (h : gapTo? d (c :: cs) = some part) : c = d := by
  rw [gapTo?_eq, covered_stop hc, behind_stop hc] at h
  obtain ⟨us, vs, htaken, -, -⟩ := exists_of_upToLast? h
  have hmem : d ∈ [c] := by
    rw [show [c] = us ++ d :: vs from htaken]
    simp
  exact (List.mem_singleton.1 hmem).symm

/-- A command's name is followed by a character that is no letter. -/
theorem exists_endsName_of_ending? {cs part : List Char} (h : ending? cs = some part) :
    ∃ c ds, cs = c :: ds ∧ endsName c = true := by
  cases cs with
  | nil =>
    rw [show ending? [] = none from rfl] at h
    cases h
  | cons c ds =>
    refine ⟨c, ds, rfl, ?_⟩
    by_cases hc : goesOn false c = true
    · simp only [goesOn, Bool.false_or, Bool.or_eq_true] at hc
      simp only [endsName, Bool.or_eq_true]
      tauto
    · -- nothing is covered, so the delimiter or the star stands here
      have hsign : c = '*' ∨ c = '{' ∨ c = '[' ∨ c = '%' := by
        rcases ending?_cases h with ⟨vs, lead, hstar, -, -⟩ | h | h | ⟨vs, hcs, -⟩
        · rw [behind_stop hc, List.cons.injEq] at hstar
          exact Or.inl hstar.1
        · exact Or.inr (Or.inl (eq_of_gapTo?_cons hc h))
        · exact Or.inr (Or.inr (Or.inl (eq_of_gapTo?_cons hc h)))
        · have hblank : ¬ isBlank c = true := fun hb => hc (by simp [goesOn, hb])
          rw [List.takeWhile_cons_of_neg hblank, List.nil_append, List.cons.injEq] at hcs
          exact Or.inr (Or.inr (Or.inr hcs.1))
      rcases hsign with rfl | rfl | rfl | rfl <;> rfl

/-! ## Forms -/

theorem exists_of_keywordAt? {cs : List Char} {k : Keyword} (h : keywordAt? cs = some k) :
    ∃ rest, cs = k.name.toList ++ rest := by
  have hprefix := List.find?_some h
  rw [List.isPrefixOf_iff_prefix] at hprefix
  obtain ⟨rest, hrest⟩ := hprefix
  exact ⟨rest, hrest.symm⟩

theorem exists_of_formAt? {cs form : List Char} {k : Keyword} (h : formAt? cs = some (k, form)) :
    ∃ rest part, cs = '\\' :: (k.name.toList ++ rest) ∧ ending? rest = some part ∧
      form = '\\' :: (k.name.toList ++ part) := by
  unfold formAt? at h
  split at h
  · next ds =>
    obtain ⟨k', hk', h⟩ := Option.bind_eq_some_iff.1 h
    obtain ⟨part, hpart, heq⟩ := Option.map_eq_some_iff.1 h
    cases heq
    obtain ⟨rest, rfl⟩ := exists_of_keywordAt? hk'
    rw [List.drop_left] at hpart
    exact ⟨rest, part, rfl, hpart, rfl⟩
  · cases h

theorem exists_append_of_formAt? {cs form : List Char} {k : Keyword}
    (h : formAt? cs = some (k, form)) : ∃ vs, cs = form ++ vs := by
  obtain ⟨rest, part, rfl, hpart, rfl⟩ := exists_of_formAt? h
  obtain ⟨vs, rfl⟩ := exists_append_of_ending? hpart
  exact ⟨vs, by simp⟩

theorem name_ne_nil (k : Keyword) : k.name.toList ≠ [] := by
  cases k <;> simp [Keyword.name]

theorem backslash_notMem_name (k : Keyword) : '\\' ∉ k.name.toList := by
  cases k <;> simp [Keyword.name]

/-- The only backslash of a form that can be genuine is its first character. -/
theorem formAt?_backslash {cs form us vs : List Char} {k : Keyword} (m : Mark)
    (h : formAt? cs = some (k, form)) (hus : us ≠ []) (hform : form = us ++ '\\' :: vs) :
    m.after us ≠ .plain := by
  obtain ⟨rest, part, -, hpart, rfl⟩ := exists_of_formAt? h
  obtain ⟨u, us, rfl⟩ := List.exists_cons_of_ne_nil hus
  rw [List.cons_append, List.cons.injEq] at hform
  obtain ⟨rfl, hform⟩ := hform
  -- the name has no backslash, so this one stands behind it
  have hbehind : ∃ as, us = k.name.toList ++ as ∧ part = as ++ '\\' :: vs := by
    rcases List.append_eq_append_iff.1 hform with ⟨as, hus, hpart⟩ | ⟨bs, hname, hbs⟩
    · exact ⟨as, hus, hpart⟩
    · cases bs with
      | nil => exact ⟨[], by rw [hname, List.append_nil, List.append_nil], hbs.symm⟩
      | cons x xs =>
        rw [List.cons_append, List.cons.injEq] at hbs
        obtain ⟨rfl, -⟩ := hbs
        refine absurd ?_ (backslash_notMem_name k)
        rw [hname]
        simp
  obtain ⟨as, rfl, has⟩ := hbehind
  have hnext : (m.next '\\').after k.name.toList ≠ .escaped :=
    Mark.after_ne_escaped _ (name_ne_nil k) (backslash_notMem_name k)
  rw [Mark.after_cons, Mark.after_append, ending?_backslash hnext hpart has]
  simp

end Occurrence
end Sectioning
