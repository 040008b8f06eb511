/-
The command form as a regular expression.

A pattern is read as a backtracking matcher reads it.  `Pattern.run p k cs` goes through
the ways in which `p` can take a beginning off `cs`, in the order of preference, and
stops at the first one whose rest `k` accepts.  Repetitions are greedy.

The pattern of a gap can begin a comment anew inside a comment, so it has many ways to
the same rest.  But the rests come in order, if each is counted where it comes first: the
shortest one is left by the longest gap, and then every end of a shorter gap follows
(`run_gap`).  From this the ending of a command is read off (`run_endings`), and the
pattern gives the forms that scanning looks for (`commandAt?_endings`).
-/
import Sectioning.Proofs.Endings

namespace Sectioning

inductive Pattern where
  | empty
  | one (accepts : Char → Bool)
  | seq (first second : Pattern)
  | alt (first second : Pattern)
  | many (body : Pattern)

namespace Pattern

/-! ## Matching -/

/-- Goes on with `step` as often as it can, and then with `k`.  A round that takes
nothing is not followed by another one. -/
def rounds {α : Type} (step : (List Char → Option α) → List Char → Option α)
    (k : List Char → Option α) (cs : List Char) : Option α :=
  (step (fun rest => if _h : rest.length < cs.length then rounds step k rest else none) cs).or
    (k cs)
termination_by cs.length

def run {α : Type} : Pattern → (List Char → Option α) → List Char → Option α
  | empty, k, cs => k cs
  | one _, _, [] => none
  | one accepts, k, c :: cs => if accepts c then k cs else none
  | seq p q, k, cs => p.run (q.run k) cs
  | alt p q, k, cs => (p.run k cs).or (q.run k cs)
  | many p, k, cs => rounds p.run k cs

variable {α : Type} {k k' : List Char → Option α}

theorem run_many (p : Pattern) (k : List Char → Option α) (cs : List Char) :
    (many p).run k cs =
      (p.run (fun rest => if rest.length < cs.length then (many p).run k rest else none) cs).or
        (k cs) := by
  show rounds p.run k cs = _
  rw [rounds]
  simp only [dite_eq_ite]
  rfl

/-- A match depends on what is accepted of the rests of the text alone. -/
theorem run_congr (p : Pattern) {cs : List Char}
    (h : ∀ rest, rest.length ≤ cs.length → k rest = k' rest) : p.run k cs = p.run k' cs := by
  induction p generalizing k k' cs with
  | empty => exact h cs (Nat.le_refl _)
  | one accepts =>
    cases cs with
    | nil => rfl
    | cons c cs =>
      have hrest : k cs = k' cs := h cs (Nat.le_succ _)
      show (if accepts c then k cs else none) = if accepts c then k' cs else none
      rw [hrest]
  | seq p q hp hq =>
    refine hp fun rest hle => hq fun rest' hle' => ?_
    exact h rest' (Nat.le_trans hle' hle)
  | alt p q hp hq =>
    show (p.run k cs).or (q.run k cs) = (p.run k' cs).or (q.run k' cs)
    rw [hp h, hq h]
  | many p hp =>
    induction hn : cs.length using Nat.strongRecOn generalizing cs with
    | ind n ih =>
      rw [run_many, run_many, h cs (Nat.le_refl _)]
      congr 1
      refine hp fun rest _ => ?_
      by_cases hlt : rest.length < cs.length
      · rw [if_pos hlt, if_pos hlt]
        refine ih rest.length (by omega) (fun rest' hle => h rest' (by omega)) rfl
      · rw [if_neg hlt, if_neg hlt]

theorem run_many_one_nil (accepts : Char → Bool) : (many (one accepts)).run k [] = k [] := by
  rw [run_many]
  exact Option.none_or

theorem run_many_one_cons (accepts : Char → Bool) (c : Char) (cs : List Char) :
    (many (one accepts)).run k (c :: cs) =
      if accepts c then ((many (one accepts)).run k cs).or (k (c :: cs)) else k (c :: cs) := by
  have hlt : cs.length < (c :: cs).length := Nat.lt_succ_self _
  rw [run_many, run]
  by_cases hc : accepts c = true
  · rw [if_pos hc, if_pos hc, if_pos hlt]
  · rw [if_neg hc, if_neg hc, Option.none_or]

/-! ## The pattern of a command -/

def sign (d : Char) : Pattern :=
  one (· == d)

def optional (p : Pattern) : Pattern :=
  alt p empty

def word (w : String) : Pattern :=
  w.toList.foldr (fun c p => seq (sign c) p) empty

def blanks : Pattern :=
  many (one isBlank)

/-- The rest of a line after a percent sign, and blanks. -/
def commentText : Pattern :=
  seq (many (one (· != '\n'))) blanks

def gap : Pattern :=
  seq blanks (many (seq (sign '%') commentText))

def toBrace : Pattern :=
  seq gap (seq (optional (sign '*')) (seq gap (sign '{')))

def toBracket : Pattern :=
  seq gap (sign '[')

def toComment : Pattern :=
  seq blanks (sign '%')

/-- What may follow the name of a command. -/
def endings : Pattern :=
  alt toBrace (alt toBracket toComment)

def names : Pattern :=
  alt (word "part") (alt (word "chapter")
    (alt (seq (optional (seq (word "sub") (optional (word "sub")))) (word "section"))
      (alt (seq (optional (word "sub")) (word "paragraph"))
        (alt (word "include") (word "input")))))

/-- The command that a text begins with, as its keyword and the text of the match, where
`ending` is the pattern of what follows the name. -/
def commandAt? (ending : Pattern) : List Char → Option (Keyword × List Char)
  | '\\' :: cs =>
    (names.run (fun rest => (ending.run some rest).map fun rest' => (rest, rest')) cs).bind
      fun (rest, rest') =>
        (Keyword.ofName? (String.ofList (cs.take (cs.length - rest.length)))).map
          fun k => (k, '\\' :: cs.take (cs.length - rest'.length))
  | _ => none

/-! ## Gaps -/

open Occurrence

/-- The first success of `k` at the end of a gap, the longest gap first. -/
def atGapEnd? (k : List Char → Option α) : Bool → List Char → Option α
  | _, [] => k []
  | inComment, c :: cs =>
    if goesOn inComment c then (atGapEnd? k (commentAfter inComment c) cs).or (k (c :: cs))
    else k (c :: cs)

variable {inComment : Bool} {c d : Char} {cs : List Char}

theorem atGapEnd?_cons (h : goesOn inComment c = true) (cs : List Char) :
    atGapEnd? k inComment (c :: cs) =
      (atGapEnd? k (commentAfter inComment c) cs).or (k (c :: cs)) := by
  rw [atGapEnd?, if_pos h]

theorem atGapEnd?_stop (h : ¬ goesOn inComment c = true) (cs : List Char) :
    atGapEnd? k inComment (c :: cs) = k (c :: cs) := by
  rw [atGapEnd?, if_neg h]

/-- The ends of a gap that begins inside a comment are ends of the gap of that comment. -/
theorem atGapEnd?_eq_none (h : atGapEnd? k true cs = none) (inComment : Bool) :
    atGapEnd? k inComment cs = none := by
  induction cs generalizing inComment with
  | nil => exact h
  | cons c cs ih =>
    rw [atGapEnd?_cons rfl, Option.or_eq_none_iff] at h
    by_cases hc : goesOn inComment c = true
    · rw [atGapEnd?_cons hc, Option.or_eq_none_iff]
      refine ⟨?_, h.2⟩
      by_cases hn : c = '\n'
      · subst hn
        cases inComment <;> exact h.1
      · have hafter : commentAfter true c = true := by simp [commentAfter, hn]
        rw [hafter] at h
        exact ih h.1 _
    · rw [atGapEnd?_stop hc]
      exact h.2

theorem atGapEnd?_or (inComment inComment' : Bool) (h : inComment = inComment' ∨ inComment = true)
    (cs : List Char) (x : Option α) :
    (atGapEnd? k inComment cs).or ((atGapEnd? k inComment' cs).or x) =
      (atGapEnd? k inComment cs).or x := by
  cases hfirst : atGapEnd? k inComment cs with
  | some a => rfl
  | none =>
    have hsecond : atGapEnd? k inComment' cs = none := by
      rcases h with rfl | rfl
      · exact hfirst
      · exact atGapEnd?_eq_none hfirst inComment'
    rw [hsecond, Option.none_or]

theorem run_comments_stop (hc : c ≠ '%') (cs : List Char) :
    (many (seq (sign '%') commentText)).run k (c :: cs) = k (c :: cs) := by
  have hne : (c == '%') = false := by simpa using hc
  rw [run_many, run, sign, run, hne]
  rfl

theorem run_comments_percent (cs : List Char) :
    (many (seq (sign '%') commentText)).run k ('%' :: cs) =
      (commentText.run ((many (seq (sign '%') commentText)).run k) cs).or (k ('%' :: cs)) := by
  rw [run_many]
  congr 1
  show commentText.run _ cs = _
  refine run_congr commentText fun rest hle => ?_
  exact if_pos (Nat.lt_succ_of_le hle)

theorem run_gap_and_comment (cs : List Char) :
    gap.run k cs = atGapEnd? k false cs ∧
      commentText.run ((many (seq (sign '%') commentText)).run k) cs = atGapEnd? k true cs := by
  have hnil : (many (seq (sign '%') commentText)).run k [] = k [] := by
    rw [run_many]
    exact Option.none_or
  induction cs with
  | nil =>
    have hgap : gap.run k [] = k [] := by
      show blanks.run _ [] = _
      rw [blanks, run_many_one_nil, hnil]
    refine ⟨hgap, ?_⟩
    show (many (one (· != '\n'))).run (gap.run k) [] = _
    rw [run_many_one_nil, hgap]
    rfl
  | cons c cs ih =>
    have hgap : gap.run k (c :: cs) = atGapEnd? k false (c :: cs) := by
      show blanks.run _ (c :: cs) = _
      rw [blanks, run_many_one_cons]
      by_cases hblank : isBlank c = true
      · have hgoes : goesOn false c = true := by simp [goesOn, hblank]
        have hcom : c ≠ '%' := by
          rintro rfl
          exact absurd hblank (by decide)
        have hafter : commentAfter false c = false := by simp [commentAfter, hcom]
        rw [if_pos hblank, run_comments_stop hcom, atGapEnd?_cons hgoes, hafter]
        exact congrArg (Option.or · (k (c :: cs))) ih.1
      · rw [if_neg hblank]
        by_cases hcom : c = '%'
        · subst hcom
          rw [run_comments_percent, ih.2, atGapEnd?_cons rfl]
          rfl
        · rw [run_comments_stop hcom, atGapEnd?_stop (by simp [goesOn, hblank, hcom])]
    refine ⟨hgap, ?_⟩
    show (many (one (· != '\n'))).run (gap.run k) (c :: cs) = _
    rw [run_many_one_cons, hgap]
    by_cases hn : c = '\n'
    · subst hn
      have hgoes : ∀ x, goesOn x '\n' = true := by decide
      rw [if_neg (by decide), atGapEnd?_cons (hgoes false), atGapEnd?_cons (hgoes true)]
      rfl
    · have hafter : commentAfter true c = true := by simp [commentAfter, hn]
      have hline : (many (one (· != '\n'))).run (gap.run k) cs = atGapEnd? k true cs := ih.2
      have hgoes : goesOn true c = true := rfl
      rw [if_pos (by simpa using hn), hline, atGapEnd?_cons hgoes, hafter]
      -- a gap that begins at `c` ends nowhere else
      by_cases hc : goesOn false c = true
      · rw [atGapEnd?_cons hc, atGapEnd?_or _ _ (Or.inr rfl)]
      · rw [atGapEnd?_stop hc]

/-- A gap is as long as it can be, and then shorter by one character after the other. -/
theorem run_gap (cs : List Char) : gap.run k cs = atGapEnd? k false cs :=
  (run_gap_and_comment cs).1

/-! ## Endings -/

theorem run_sign (d c : Char) (cs : List Char) :
    (sign d).run k (c :: cs) = if c = d then k cs else none := by
  rw [sign, run]
  simp only [beq_iff_eq]

theorem atGapEnd?_sign (d : Char) (inComment : Bool) (cs : List Char) :
    atGapEnd? ((sign d).run some) inComment cs =
      (upToLast? d (covered inComment cs ++ (behind inComment cs).take 1)).map
        fun part => cs.drop part.length := by
  induction cs generalizing inComment with
  | nil => rfl
  | cons c cs ih =>
    by_cases hc : goesOn inComment c = true
    · rw [atGapEnd?_cons hc, covered_cons hc, behind_cons hc, List.cons_append, upToLast?, ih,
        run_sign]
      cases upToLast? d (covered (commentAfter inComment c) cs ++
          (behind (commentAfter inComment c) cs).take 1) with
      | some part => rfl
      | none =>
        by_cases hd : c = d
        · simp [hd]
        · simp [hd]
    · rw [atGapEnd?_stop hc, covered_stop hc, behind_stop hc, run_sign]
      show _ = (upToLast? d [c]).map _
      by_cases hd : c = d
      · simp [upToLast?, hd]
      · simp [upToLast?, hd]

theorem run_gap_sign (d : Char) (cs : List Char) :
    (seq gap (sign d)).run some cs = (gapTo? d cs).map fun part => cs.drop part.length := by
  show gap.run _ cs = _
  rw [run_gap, atGapEnd?_sign, gapTo?_eq]

/-- After `c` a gap is in a comment if it was in one, and else it goes on as if it began
at `c`, a line break apart. -/
theorem commentAfter_cases (inComment : Bool) (c : Char) :
    commentAfter inComment c = commentAfter false c ∨ commentAfter inComment c = true := by
  cases inComment with
  | false => exact Or.inl rfl
  | true =>
    by_cases hn : c = '\n'
    · subst hn
      exact Or.inl rfl
    · exact Or.inr (by simp [commentAfter, hn])

/-- A star matters only behind the longest gap.  At a star in a comment the braces that
could follow it have been tried before. -/
theorem atGapEnd?_star (k : List Char → Option α) (inComment : Bool) (cs : List Char) :
    atGapEnd? ((optional (sign '*')).run (atGapEnd? ((sign '{').run k) false)) inComment cs =
      ((sign '*').run (atGapEnd? ((sign '{').run k) false) (behind inComment cs)).or
        (atGapEnd? ((sign '{').run k) inComment cs) := by
  induction cs generalizing inComment with
  | nil => rfl
  | cons c cs ih =>
    by_cases hc : goesOn inComment c = true
    · rw [atGapEnd?_cons hc, ih, behind_cons hc, atGapEnd?_cons hc, Option.or_assoc]
      congr 1
      show _ = Option.or _ _
      rw [optional, run, run_sign]
      by_cases hstar : c = '*'
      · subst hstar
        cases inComment with
        | false => exact absurd hc (by decide)
        | true =>
          have hstop : ¬ goesOn false '*' = true := by decide
          have hafter : commentAfter true '*' = true := by decide
          rw [if_pos rfl, run, atGapEnd?_stop hstop, hafter, atGapEnd?_or _ _ (Or.inr rfl)]
      · rw [if_neg hstar, Option.none_or, run]
        by_cases hgoes : goesOn false c = true
        · rw [atGapEnd?_cons hgoes, atGapEnd?_or _ _ (commentAfter_cases inComment c)]
        · rw [atGapEnd?_stop hgoes]
    · cases inComment with
      | true => exact absurd rfl hc
      | false =>
        rw [atGapEnd?_stop hc, behind_stop hc]
        rfl

theorem run_toBrace (cs : List Char) :
    toBrace.run some cs =
      ((starredGap? cs).or (gapTo? '{' cs)).map fun part => cs.drop part.length := by
  have hgap : gap.run ((sign '{').run some) = atGapEnd? ((sign '{').run some) false :=
    funext run_gap
  show gap.run ((optional (sign '*')).run (gap.run ((sign '{').run some))) cs = _
  rw [run_gap, hgap, atGapEnd?_star, atGapEnd?_sign, ← gapTo?_eq, Option.map_or]
  congr 1
  by_cases hstar : ∃ vs, behind false cs = '*' :: vs
  · obtain ⟨vs, hvs⟩ := hstar
    rw [hvs, run_sign, if_pos rfl, starredGap?_star hvs, atGapEnd?_sign, ← gapTo?_eq,
      Option.map_map]
    congr 1
    funext part
    -- the part goes through the first gap and the star
    have hcs : cs = covered false cs ++ ['*'] ++ vs := by
      rw [List.append_assoc, List.singleton_append, ← hvs, covered_append_behind]
    show vs.drop part.length = cs.drop (covered false cs ++ '*' :: part).length
    rw [List.append_cons, List.length_append, ← List.drop_drop]
    have hdrop : (covered false cs ++ ['*'] ++ vs).drop (covered false cs ++ ['*']).length = vs :=
      List.drop_left
    rw [← hcs] at hdrop
    rw [hdrop]
  · have hnone : (sign '*').run (atGapEnd? ((sign '{').run some) false) (behind false cs) =
        (none : Option (List Char)) := by
      cases hb : behind false cs with
      | nil => rfl
      | cons c vs =>
        rw [run_sign, if_neg]
        intro hc
        subst hc
        exact hstar ⟨vs, hb⟩
    rw [hnone, starredGap?_of_ne fun vs hvs => hstar ⟨vs, hvs⟩]
    rfl

theorem run_toComment (cs : List Char) :
    toComment.run some cs = (blanksToComment? cs).map fun part => cs.drop part.length := by
  induction cs with
  | nil =>
    show blanks.run _ [] = _
    rw [blanks, run_many_one_nil]
    rfl
  | cons c cs ih =>
    show blanks.run _ (c :: cs) = _
    rw [blanks, run_many_one_cons, run_sign]
    by_cases hblank : isBlank c = true
    · have hcom : c ≠ '%' := by
        intro hc
        rw [hc] at hblank
        exact absurd hblank (by decide)
      rw [if_pos hblank, if_neg hcom, Option.or_none]
      refine Eq.trans ih ?_
      rw [blanksToComment?, blanksToComment?, List.dropWhile_cons_of_pos hblank,
        List.takeWhile_cons_of_pos hblank]
      split
      · rfl
      · rfl
    · rw [if_neg hblank]
      by_cases hcom : c = '%'
      · subst hcom
        rw [if_pos rfl]
        rfl
      · rw [if_neg hcom, blanksToComment?, List.dropWhile_cons_of_neg hblank]
        split
        · next hvs => exact absurd (List.cons.inj hvs).1 hcom
        · rfl

/-- The ending that the pattern prefers. -/
theorem run_endings (cs : List Char) :
    endings.run some cs = (ending? cs).map fun part => cs.drop part.length := by
  show (toBrace.run some cs).or ((toBracket.run some cs).or (toComment.run some cs)) = _
  rw [run_toBrace, toBracket, run_gap_sign, run_toComment, ending?_eq, ← Option.map_or,
    ← Option.map_or, Option.or_assoc]

/-! ## Commands -/

theorem run_word (w : String) (k : List Char → Option α) (cs : List Char) :
    (word w).run k cs =
      if w.toList.isPrefixOf cs then k (cs.drop w.toList.length) else none := by
  rw [word]
  generalize w.toList = ds
  induction ds generalizing cs with
  | nil => rfl
  | cons d ds ih =>
    cases cs with
    | nil => rfl
    | cons c cs =>
      show (sign d).run _ (c :: cs) = _
      rw [run_sign, ih]
      by_cases hd : c = d
      · simp [List.isPrefixOf, hd]
      · simp [List.isPrefixOf, hd, Ne.symm hd]

theorem run_word_or (w : String) (k k' : List Char → Option α) (cs : List Char) :
    (word w).run (fun rest => (k rest).or (k' rest)) cs =
      ((word w).run k cs).or ((word w).run k' cs) := by
  rw [run_word, run_word, run_word]
  split
  · rfl
  · rfl

theorem run_word_append (v w : String) (k : List Char → Option α) (cs : List Char) :
    (word v).run ((word w).run k) cs = (word (v ++ w)).run k cs := by
  rw [word, word, word, String.toList_append]
  generalize v.toList = us
  induction us generalizing cs with
  | nil => rfl
  | cons u us ih =>
    rw [List.cons_append]
    show (sign u).run _ cs = (sign u).run _ cs
    rw [funext ih]

/-- No name begins with another one, so a name is matched only where its keyword stands. -/
theorem run_name (kw : Keyword) (k : List Char → Option α) (cs : List Char) :
    (word kw.name).run k cs = (keywordAt? cs).bind fun kw' =>
      if kw' = kw then k (cs.drop kw'.name.toList.length) else none := by
  rw [run_word]
  by_cases hp : kw.name.toList.isPrefixOf cs = true
  · obtain ⟨rest, rfl⟩ := List.isPrefixOf_iff_prefix.1 hp
    rw [if_pos hp, keywordAt?_name, Option.bind_some, if_pos rfl]
  · rw [if_neg hp]
    cases hk : keywordAt? cs with
    | none => rfl
    | some kw' =>
      rw [Option.bind_some, if_neg]
      intro heq
      subst heq
      obtain ⟨rest, rfl⟩ := exists_of_keywordAt? hk
      exact hp (List.isPrefixOf_iff_prefix.2 (List.prefix_append _ _))

theorem run_names (cs : List Char) :
    names.run k cs = (keywordAt? cs).bind fun kw => k (cs.drop kw.name.toList.length) := by
  have hsection : (seq (optional (seq (word "sub") (optional (word "sub")))) (word "section")).run
      k cs = ((word Keyword.subsubsection.name).run k cs).or
        (((word Keyword.subsection.name).run k cs).or ((word Keyword.section.name).run k cs)) := by
    show ((word "sub").run (fun rest => ((word "sub").run ((word "section").run k) rest).or
      ((word "section").run k rest)) cs).or ((word "section").run k cs) = _
    rw [run_word_or, funext (run_word_append "sub" "section" k), run_word_append, Option.or_assoc]
    rfl
  have hparagraph : (seq (optional (word "sub")) (word "paragraph")).run k cs =
      ((word Keyword.subparagraph.name).run k cs).or
        ((word Keyword.paragraph.name).run k cs) := by
    show ((word "sub").run ((word "paragraph").run k) cs).or ((word "paragraph").run k cs) = _
    rw [run_word_append]
    rfl
  show ((word Keyword.part.name).run k cs).or (((word Keyword.chapter.name).run k cs).or
    (((seq _ (word "section")).run k cs).or (((seq _ (word "paragraph")).run k cs).or
      (((word Keyword.include.name).run k cs).or ((word Keyword.input.name).run k cs))))) = _
  rw [hsection, hparagraph]
  simp only [run_name]
  cases keywordAt? cs with
  | none => rfl
  | some kw => cases kw <;> simp

theorem ofName?_name (k : Keyword) : Keyword.ofName? k.name = some k := by
  cases k <;> rfl

theorem take_sub_length (us vs : List Char) :
    (us ++ vs).take ((us ++ vs).length - vs.length) = us := by
  rw [List.length_append, Nat.add_sub_cancel, List.take_left]

/-- A command with an ending of the pattern `ending`, where `e` says what that pattern
takes. -/
theorem commandAt?_eq {ending : Pattern} {e : List Char → Option (List Char)}
    (hending : ∀ cs, ending.run some cs = (e cs).map fun part => cs.drop part.length)
    (he : ∀ {cs part}, e cs = some part → ∃ vs, cs = part ++ vs) (cs : List Char) :
    commandAt? ending ('\\' :: cs) = (keywordAt? cs).bind fun k =>
      (e (cs.drop k.name.toList.length)).map fun part => (k, '\\' :: (k.name.toList ++ part)) := by
  rw [commandAt?, run_names]
  cases hk : keywordAt? cs with
  | none => rfl
  | some k =>
    obtain ⟨rest, rfl⟩ := exists_of_keywordAt? hk
    rw [Option.bind_some, Option.bind_some, List.drop_left, hending]
    cases hpart : e rest with
    | none => rfl
    | some part =>
      obtain ⟨vs, rfl⟩ := he hpart
      have hname := take_sub_length k.name.toList (part ++ vs)
      have hform := take_sub_length (k.name.toList ++ part) vs
      rw [List.append_assoc] at hform
      simp only [Option.map_some, Option.bind_some, List.drop_left]
      rw [hname, hform, String.ofList_toList, ofName?_name, Option.map_some]

theorem commandAt?_of_ne (ending : Pattern) (hc : c ≠ '\\') (cs : List Char) :
    commandAt? ending (c :: cs) = none := by
  unfold commandAt?
  split
  · next h => exact absurd (List.cons.inj h).1 hc
  · rfl

/-- The pattern gives the forms that scanning looks for. -/
theorem commandAt?_endings : commandAt? endings = formAt? := by
  funext cs
  cases cs with
  | nil => rfl
  | cons c cs =>
    by_cases hc : c = '\\'
    · subst hc
      rw [commandAt?_eq run_endings exists_append_of_ending?]
      rfl
    · rw [commandAt?_of_ne endings hc, formAt?_of_ne hc]

end Pattern
end Sectioning
