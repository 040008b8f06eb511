/-
Commands whose delimiter depends on their comments.

A comment between the name of a command and its argument is passed over when an
opening brace follows, and so the form is the same whatever the comment says.
Without that brace a delimiter is looked for in the comments too, and the command
is loose.  For a command that is not loose the delimiter can be read off the text
behind the gaps (`ending?_of_not_isLoose`), and it stands at the same place
whatever the comments are filled with (`At.of_alike`).
-/
import Sectioning.Proofs.Anchors

namespace Sectioning
namespace Occurrence

/-- Whether a delimiter of the command is looked for in comments: one of its gaps
holds a comment, and no opening brace follows the gaps. -/
def isLoose (cs : List Char) : Bool :=
  if (behind false cs).head? = some '{' then false
  else if (behind false cs).head? = some '*' then
    (behind false (behind false cs).tail).head? != some '{' &&
      (List.elem '%' (covered false cs) ||
        List.elem '%' (covered false (behind false cs).tail))
  else List.elem '%' (covered false cs)

/-- The text up to a delimiter that stands behind the gaps. -/
def firmEnding? (cs : List Char) : Option (List Char) :=
  if (behind false cs).head? = some '{' then some (covered false cs ++ ['{'])
  else if (behind false cs).head? = some '*' then
    if (behind false (behind false cs).tail).head? = some '{' then
      some (covered false cs ++ '*' :: (covered false (behind false cs).tail ++ ['{']))
    else none
  else if (behind false cs).head? = some '[' then some (covered false cs ++ ['['])
  else none

/-! ## Gaps without comments -/

theorem isBlank_of_mem_covered {cs : List Char} (h : '%' ∉ covered false cs) {c : Char}
    (hc : c ∈ covered false cs) : isBlank c = true := by
  induction cs with
  | nil => cases hc
  | cons d ds ih =>
    by_cases hd : goesOn false d = true
    · rw [covered_cons hd, List.mem_cons, not_or] at h
      have hafter : commentAfter false d = false := by simp [commentAfter, Ne.symm h.1]
      rw [covered_cons hd, hafter, List.mem_cons] at hc
      rw [hafter] at h
      rcases hc with rfl | hc
      · simpa [goesOn, Ne.symm h.1] using hd
      · exact ih h.2 hc
    · rw [covered_stop hd] at hc
      cases hc

theorem notMem_covered {cs : List Char} (h : '%' ∉ covered false cs) {c : Char}
    (hc : isBlank c = false) : c ∉ covered false cs := by
  intro hmem
  rw [isBlank_of_mem_covered h hmem] at hc
  cases hc

theorem take_one_of_head? {cs : List Char} {d : Char} (h : cs.head? = some d) :
    cs.take 1 = [d] := by
  cases cs with
  | nil => cases h
  | cons c cs =>
    cases h
    rfl

theorem cons_tail_of_head? {cs : List Char} {d : Char} (h : cs.head? = some d) :
    cs = d :: cs.tail := by
  cases cs with
  | nil => cases h
  | cons c cs =>
    cases h
    rfl

theorem gapTo?_of_head? {cs : List Char} {d : Char} (h : (behind false cs).head? = some d) :
    gapTo? d cs = some (covered false cs ++ [d]) := by
  rw [gapTo?_eq, take_one_of_head? h]
  exact upToLast?_append List.not_mem_nil _

/-- No delimiter is found in a gap without comments that it does not follow. -/
theorem gapTo?_eq_none {cs : List Char} {d : Char} (hd : isBlank d = false)
    (h : '%' ∉ covered false cs) (hhead : (behind false cs).head? ≠ some d) :
    gapTo? d cs = none := by
  rw [gapTo?_eq, upToLast?_eq_none_iff, List.mem_append, not_or]
  refine ⟨notMem_covered h hd, ?_⟩
  cases hb : behind false cs with
  | nil => exact List.not_mem_nil
  | cons x xs =>
    rw [hb, List.head?_cons] at hhead
    show d ∉ [x]
    rw [List.mem_singleton]
    rintro rfl
    exact hhead rfl

theorem blanksToComment?_eq_none {cs : List Char} (h : '%' ∉ covered false cs) :
    blanksToComment? cs = none := by
  have hdrop : ∀ vs, cs.dropWhile isBlank ≠ '%' :: vs := by
    intro vs hvs
    induction cs with
    | nil => cases hvs
    | cons d ds ih =>
      by_cases hd : isBlank d = true
      · have hgoes : goesOn false d = true := by simp [goesOn, hd]
        rw [covered_cons hgoes, List.mem_cons, not_or] at h
        have hafter : commentAfter false d = false := by simp [commentAfter, Ne.symm h.1]
        rw [hafter] at h
        rw [List.dropWhile_cons_of_pos hd] at hvs
        exact ih h.2 hvs
      · rw [List.dropWhile_cons_of_neg hd, List.cons.injEq] at hvs
        rw [hvs.1, covered_cons (by decide)] at h
        exact h List.mem_cons_self
  rw [blanksToComment?]
  split
  · next vs hvs => exact absurd hvs (hdrop vs)
  · rfl

/-- The delimiter of a command that is not loose stands behind its gaps. -/
theorem ending?_of_not_isLoose {cs : List Char} (h : isLoose cs = false) :
    ending? cs = firmEnding? cs := by
  rw [ending?_eq]
  unfold isLoose at h
  unfold firmEnding?
  by_cases hbrace : (behind false cs).head? = some '{'
  · have hstar : starredGap? cs = none := by
      refine starredGap?_of_ne fun vs hvs => ?_
      rw [hvs] at hbrace
      exact absurd hbrace (by simp)
    rw [if_pos hbrace, hstar, gapTo?_of_head? hbrace]
    rfl
  · rw [if_neg hbrace] at h ⊢
    by_cases hstar : (behind false cs).head? = some '*'
    · rw [if_pos hstar] at h ⊢
      rw [starredGap?_star (cons_tail_of_head? hstar)]
      by_cases hbrace' : (behind false (behind false cs).tail).head? = some '{'
      · rw [if_pos hbrace', gapTo?_of_head? hbrace']
        rfl
      · have hno : '%' ∉ covered false cs ∧ '%' ∉ covered false (behind false cs).tail := by
          simpa [hbrace'] using h
        have hbracket : (behind false cs).head? ≠ some '[' := by
          rw [hstar]
          decide
        rw [if_neg hbrace', gapTo?_eq_none (by decide) hno.2 hbrace',
          gapTo?_eq_none (by decide) hno.1 hbrace, gapTo?_eq_none (by decide) hno.1 hbracket,
          blanksToComment?_eq_none hno.1]
        rfl
    · rw [if_neg hstar] at h ⊢
      have hno : '%' ∉ covered false cs := by simpa using h
      have hnostar : starredGap? cs = none := by
        refine starredGap?_of_ne fun vs hvs => ?_
        rw [hvs] at hstar
        exact hstar rfl
      rw [hnostar, gapTo?_eq_none (by decide) hno hbrace]
      by_cases hbracket : (behind false cs).head? = some '['
      · rw [if_pos hbracket, gapTo?_of_head? hbracket]
        rfl
      · rw [if_neg hbracket, gapTo?_eq_none (by decide) hno hbracket,
          blanksToComment?_eq_none hno]
        rfl

/-! ## Gaps with other comments -/

/-- The mark of a place in a gap that is in a comment or not. -/
def gapMark (inComment : Bool) : Mark :=
  if inComment then .comment else .plain

theorem gapMark_next {inComment : Bool} {c : Char} (h : goesOn inComment c = true) :
    (gapMark inComment).next c = gapMark (commentAfter inComment c) := by
  cases inComment with
  | true =>
    by_cases hc : c = '\n'
    · subst hc
      rfl
    · have hafter : commentAfter true c = true := by simp [commentAfter, hc]
      rw [hafter]
      exact Mark.next_comment hc
  | false =>
    by_cases hc : c = '%'
    · subst hc
      rfl
    · have hafter : commentAfter false c = false := by simp [commentAfter, hc]
      have hesc : c ≠ '\\' := by
        rintro rfl
        exact absurd h (by decide)
      rw [hafter]
      exact Mark.next_of_ne (by decide) hesc hc

/-- A gap ends outside comments, unless the text ends with it. -/
theorem after_covered {inComment : Bool} {cs : List Char} (h : behind inComment cs ≠ []) :
    (gapMark inComment).after (covered inComment cs) = .plain := by
  induction cs generalizing inComment with
  | nil => exact absurd rfl h
  | cons c cs ih =>
    by_cases hc : goesOn inComment c = true
    · rw [behind_cons hc] at h
      rw [covered_cons hc, Mark.after_cons, gapMark_next hc, ih h]
    · rw [covered_stop hc]
      cases inComment with
      | true => exact absurd rfl hc
      | false => rfl

section

variable {w : List Char}

theorem covered_true_of_notMem {us : List Char} (hus : '\n' ∉ us) :
    covered true us = us ∧ behind true us = [] := by
  induction us with
  | nil => exact ⟨rfl, rfl⟩
  | cons u us ih =>
    rw [List.mem_cons, not_or] at hus
    have hafter : commentAfter true u = true := by simp [commentAfter, Ne.symm hus.1]
    rw [covered_cons rfl, behind_cons rfl, hafter, (ih hus.2).1, (ih hus.2).2]
    exact ⟨rfl, rfl⟩

theorem covered_true_append {us : List Char} (hus : '\n' ∉ us) (vs : List Char) :
    covered true (us ++ '\n' :: vs) = us ++ '\n' :: covered false vs ∧
      behind true (us ++ '\n' :: vs) = behind false vs := by
  induction us with
  | nil => exact ⟨covered_cons rfl vs, behind_cons rfl vs⟩
  | cons u us ih =>
    rw [List.mem_cons, not_or] at hus
    have hafter : commentAfter true u = true := by simp [commentAfter, Ne.symm hus.1]
    rw [List.cons_append, covered_cons rfl, behind_cons rfl, hafter, (ih hus.2).1, (ih hus.2).2]
    exact ⟨rfl, rfl⟩

/-- Refilling the comments of a text refills its gap and what stands behind it. -/
theorem gap_refill (hw : '\n' ∉ w) (inComment : Bool) (cs : List Char) :
    covered inComment (Text.refill w (gapMark inComment) cs) =
        Text.refill w (gapMark inComment) (covered inComment cs) ∧
      behind inComment (Text.refill w (gapMark inComment) cs) =
        Text.refill w .plain (behind inComment cs) := by
  induction cs generalizing inComment with
  | nil =>
    cases inComment with
    | true =>
      show covered true (Text.refill w .comment []) = Text.refill w .comment [] ∧
        behind true (Text.refill w .comment []) = Text.refill w .plain []
      rw [Text.refill_comment w List.not_mem_nil, Text.refill_nil w (by simp)]
      exact covered_true_of_notMem hw
    | false => exact ⟨rfl, rfl⟩
  | cons c cs ih =>
    cases inComment with
    | true =>
      show covered true (Text.refill w .comment (c :: cs)) =
          Text.refill w .comment (covered true (c :: cs)) ∧
        behind true (Text.refill w .comment (c :: cs)) = Text.refill w .plain (behind true (c :: cs))
      rw [covered_cons rfl, behind_cons rfl]
      by_cases hc : c = '\n'
      · subst hc
        rw [Text.refill_comment_newline, Text.refill_comment_newline, (covered_true_append hw _).1,
          (covered_true_append hw _).2]
        exact ⟨congrArg (w ++ '\n' :: ·) (ih false).1, (ih false).2⟩
      · have hafter : commentAfter true c = true := by simp [commentAfter, hc]
        rw [Text.refill_comment_cons w hc, Text.refill_comment_cons w hc, hafter]
        exact ih true
    | false =>
      show covered false (Text.refill w .plain (c :: cs)) =
          Text.refill w .plain (covered false (c :: cs)) ∧
        behind false (Text.refill w .plain (c :: cs)) = Text.refill w .plain (behind false (c :: cs))
      rw [Text.refill_cons w (by simp)]
      by_cases hc : goesOn false c = true
      · have hnext : Mark.plain.next c = gapMark (commentAfter false c) := gapMark_next hc
        rw [hnext, covered_cons hc, covered_cons hc, behind_cons hc, behind_cons hc,
          Text.refill_cons w (by simp), hnext, (ih _).1, (ih _).2]
        exact ⟨rfl, rfl⟩
      · rw [covered_stop hc, covered_stop hc, behind_stop hc, behind_stop hc,
          Text.refill_cons w (by simp), Text.refill_nil w (by simp)]
        exact ⟨rfl, rfl⟩

theorem covered_refill (hw : '\n' ∉ w) (cs : List Char) :
    covered false (Text.refill w .plain cs) = Text.refill w .plain (covered false cs) :=
  (gap_refill hw false cs).1

theorem behind_refill (hw : '\n' ∉ w) (cs : List Char) :
    behind false (Text.refill w .plain cs) = Text.refill w .plain (behind false cs) :=
  (gap_refill hw false cs).2

theorem head?_refill (w : List Char) (cs : List Char) :
    (Text.refill w .plain cs).head? = cs.head? := by
  cases cs with
  | nil => rw [Text.refill_nil w (by simp)]
  | cons c cs => rw [Text.refill_cons w (by simp), List.head?_cons, List.head?_cons]

theorem tail_refill (w : List Char) {cs : List Char} (h : cs.head? = some '*') :
    (Text.refill w .plain cs).tail = Text.refill w .plain cs.tail := by
  cases cs with
  | nil => cases h
  | cons c cs =>
    cases h
    rw [Text.refill_cons w (by simp)]
    rfl

/-- Whether a command is loose does not depend on what its comments say. -/
theorem isLoose_refill (hw : '\n' ∉ w) (cs : List Char) :
    isLoose (Text.refill w .plain cs) = isLoose cs := by
  have hpercent : ∀ ds, List.elem '%' (Text.refill w .plain ds) = List.elem '%' ds := by
    intro ds
    rw [Bool.eq_iff_iff, List.elem_iff, List.elem_iff]
    exact Text.percent_mem_refill w (by simp)
  rw [isLoose, isLoose, behind_refill hw, covered_refill hw, head?_refill, hpercent]
  by_cases hstar : (behind false cs).head? = some '*'
  · rw [tail_refill w hstar, behind_refill hw, covered_refill hw, head?_refill, hpercent]
  · rw [if_neg hstar, if_neg hstar]

/-- The place of the delimiter of a command that is not loose is a plain one. -/
theorem exists_of_firmEnding? {cs part : List Char} (h : firmEnding? cs = some part) :
    ∃ lead d, part = lead ++ [d] ∧ (d = '{' ∨ d = '[') ∧ Mark.plain.after lead = .plain := by
  have hover : ∀ {ds : List Char} {d : Char}, (behind false ds).head? = some d →
      Mark.plain.after (covered false ds) = .plain := by
    intro ds d hd
    refine @after_covered false ds fun hnil => ?_
    rw [hnil] at hd
    cases hd
  unfold firmEnding? at h
  split at h
  · next hbrace =>
    cases h
    exact ⟨_, '{', rfl, Or.inl rfl, hover hbrace⟩
  · split at h
    · next hstar =>
      split at h
      · next hbrace =>
        cases h
        refine ⟨covered false cs ++ '*' :: covered false (behind false cs).tail, '{', by simp,
          Or.inl rfl, ?_⟩
        rw [Mark.after_append, hover hstar]
        exact hover hbrace
      · cases h
    · split at h
      · next hbracket =>
        cases h
        exact ⟨_, '[', rfl, Or.inr rfl, hover hbracket⟩
      · cases h

theorem firmEnding?_refill (hw : '\n' ∉ w) (cs : List Char) :
    firmEnding? (Text.refill w .plain cs) = (firmEnding? cs).map (Text.refill w .plain) := by
  have hcovered : ∀ {ds : List Char} {d : Char}, (behind false ds).head? = some d → ∀ es,
      Text.refill w .plain (covered false ds ++ es) =
        Text.refill w .plain (covered false ds) ++ Text.refill w .plain es := by
    intro ds d hd es
    have hover : Mark.plain.after (covered false ds) = .plain := by
      refine @after_covered false ds fun hnil => ?_
      rw [hnil] at hd
      cases hd
    rw [Text.refill_append w (by rw [hover]; simp), hover]
  rw [firmEnding?, firmEnding?, behind_refill hw, covered_refill hw, head?_refill]
  by_cases hbrace : (behind false cs).head? = some '{'
  · rw [if_pos hbrace, if_pos hbrace, Option.map_some, hcovered hbrace]
    rfl
  · rw [if_neg hbrace, if_neg hbrace]
    by_cases hstar : (behind false cs).head? = some '*'
    · rw [if_pos hstar, if_pos hstar, tail_refill w hstar, behind_refill hw, covered_refill hw,
        head?_refill]
      by_cases hbrace' : (behind false (behind false cs).tail).head? = some '{'
      · rw [if_pos hbrace', if_pos hbrace', Option.map_some, hcovered hstar,
          Text.refill_cons w (by simp)]
        show _ = some (_ ++ '*' :: Text.refill w .plain _)
        rw [hcovered hbrace']
        rfl
      · rw [if_neg hbrace', if_neg hbrace', Option.map_none]
    · rw [if_neg hstar, if_neg hstar]
      by_cases hbracket : (behind false cs).head? = some '['
      · rw [if_pos hbracket, if_pos hbracket, Option.map_some, hcovered hbracket]
        rfl
      · rw [if_neg hbracket, if_neg hbracket, Option.map_none]

end

/-! ## The same form in both buffers -/

theorem after_name (k : Keyword) : Mark.plain.after ('\\' :: k.name.toList) = .plain := by
  cases k <;> decide

theorem newline_notMem_name (k : Keyword) : '\n' ∉ '\\' :: k.name.toList := by
  cases k <;> simp [Keyword.name]

theorem exists_rest_of_bare_eq {k : Keyword} {rest vs : List Char}
    (h : Text.bare .plain vs = Text.bare .plain ('\\' :: (k.name.toList ++ rest))) :
    ∃ rest', vs = '\\' :: (k.name.toList ++ rest') ∧
      Text.bare .plain rest' = Text.bare .plain rest := by
  have hover : Mark.plain.after ('\\' :: k.name.toList) ≠ .comment := by
    rw [after_name]
    simp
  have hsplit : Text.bare .plain ('\\' :: (k.name.toList ++ rest)) =
      '\\' :: k.name.toList ++ Text.bare .plain rest := by
    rw [Text.bare, ← List.cons_append, Text.refill_append [] hover, after_name,
      Text.refill_of_after_ne [] (newline_notMem_name k) hover]
  rw [hsplit] at h
  obtain ⟨rest', rfl, hrest'⟩ := Text.exists_append_of_bare_eq (newline_notMem_name k) hover h
  rw [after_name] at hrest'
  exact ⟨rest', rfl, hrest'⟩

/-- Two texts that look the same without comments have the same firm ending, up to
comments. -/
theorem exists_firmEnding?_of_bare_eq {rest rest' part : List Char}
    (h : Text.bare .plain rest' = Text.bare .plain rest) (hpart : firmEnding? rest = some part) :
    ∃ part', firmEnding? rest' = some part' ∧
      ∀ p : Position, p.afterAll part' = p.afterAll part := by
  have hmap := congrArg firmEnding? h
  rw [Text.bare, firmEnding?_refill List.not_mem_nil, firmEnding?_refill List.not_mem_nil, hpart,
    Option.map_some, Option.map_eq_some_iff] at hmap
  obtain ⟨part', hpart', hbare⟩ := hmap
  have hplace : ∀ {ds qs : List Char}, firmEnding? ds = some qs → ∀ p : Position,
      p.afterAll (Text.refill [] .plain qs) = p.afterAll qs := by
    intro ds qs hqs p
    obtain ⟨lead, d, rfl, hd, hover⟩ := exists_of_firmEnding? hqs
    refine Position.afterAll_refill List.not_mem_nil ?_ rfl fun _ => rfl
    rw [Mark.after_append, hover]
    rcases hd with rfl | rfl <;> decide
  exact ⟨part', hpart', fun p => by rw [← hplace hpart', hbare, hplace hpart]⟩

theorem isReported_of_firmEnding? {k : Keyword} {cs part us : List Char}
    (h : firmEnding? cs = some part) : isReported k (us ++ part) = true := by
  obtain ⟨lead, d, rfl, hd, -⟩ := exists_of_firmEnding? h
  have hne : (some d == some '%') = false := by
    rcases hd with rfl | rfl <;> rfl
  rw [isReported, ← List.append_assoc, List.getLast?_concat, hne, Bool.and_false]
  rfl

variable {b b' : Buffer} {o : Occurrence}

/-- No command at `p` is loose. -/
def FirmAt (b : Buffer) (p : Position) : Prop :=
  ∀ us (k : Keyword) rest, b.Splits p us ('\\' :: (k.name.toList ++ rest)) → isLoose rest = false

theorem isLoose_of_bare_eq {rest rest' : List Char}
    (h : Text.bare .plain rest' = Text.bare .plain rest) : isLoose rest' = isLoose rest := by
  rw [← isLoose_refill List.not_mem_nil rest', ← isLoose_refill List.not_mem_nil rest]
  exact congrArg isLoose h

theorem FirmAt.of_alike (h : b.Alike b') {p : Position} (hgenuine : b'.isGenuine p = true)
    (hfirm : FirmAt b p) : FirmAt b' p := by
  intro us' k rest' hs'
  have hplain : Mark.plain.after us' = .plain := hs'.isGenuine_iff.1 hgenuine
  obtain ⟨us, vs, hs, -, hbare⟩ := h.symm.exists_splits hs' (by rw [hplain]; simp)
  rw [hplain] at hbare
  obtain ⟨rest, rfl, hrest⟩ := exists_rest_of_bare_eq hbare
  rw [← isLoose_of_bare_eq hrest]
  exact hfirm us k rest hs

/-- A genuine form that is not loose stands in every buffer that differs in
comments alone. -/
theorem At.of_alike (h : b.Alike b') (hat : o.At b) (hgenuine : o.isGenuine b = true)
    (hfirm : FirmAt b o.range.start) : o.At b' := by
  obtain ⟨us, vs, form, hs, hform, -, hstop⟩ := hat
  obtain ⟨rest, part, rfl, hpart, rfl⟩ := exists_of_formAt? hform
  have hplain : Mark.plain.after us = .plain := hs.isGenuine_iff.1 hgenuine
  obtain ⟨us', vs', hs', -, hbare⟩ := h.exists_splits hs (by rw [hplain]; simp)
  rw [hplain] at hbare
  obtain ⟨rest', rfl, hrest'⟩ := exists_rest_of_bare_eq hbare
  have hloose := hfirm us o.keyword rest hs
  have hloose' : isLoose rest' = false := by rw [isLoose_of_bare_eq hrest', hloose]
  rw [ending?_of_not_isLoose hloose] at hpart
  obtain ⟨part', hpart', hplace⟩ := exists_firmEnding?_of_bare_eq hrest' hpart
  refine ⟨us', _, '\\' :: (o.keyword.name.toList ++ part'), hs', ?_, ?_, ?_⟩
  · rw [formAt?_command, ending?_of_not_isLoose hloose', hpart', Option.map_some]
  · rw [← List.cons_append]
    exact isReported_of_firmEnding? hpart'
  · rw [hstop, ← List.cons_append, ← List.cons_append, Position.afterAll_append,
      Position.afterAll_append, hplace]

end Occurrence
end Sectioning
