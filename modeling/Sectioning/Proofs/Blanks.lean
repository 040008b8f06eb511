/-
Pieces of a text, words, and texts whose blanks are collapsed.

Collapsing leaves words with one space between each two (`isTidy_collapse`), or
nothing at all.  It is the same as trimming the text and squeezing each run of
blanks into one space (`collapse_eq_squeeze_trim`).
-/
import Mathlib.Data.List.Chain
import Mathlib.Data.List.TakeWhile
import Sectioning.Text.Blank

namespace Sectioning

theorem ne_of_isBlank {c d : Char} (hc : isBlank c = true) (hd : isBlank d = false) : c ≠ d := by
  rintro rfl
  rw [hc] at hd
  cases hd

namespace Text

theorem split_of_notMem {separator : Char} {cs : List Char} (h : separator ∉ cs) :
    split separator cs = [cs] := by
  induction cs with
  | nil => rfl
  | cons c cs ih =>
    rw [List.mem_cons, not_or] at h
    rw [split, if_neg (Ne.symm h.1), ih h.2]
    rfl

/-- Words have no blanks in them. -/
theorem isBlank_of_mem_words {cs w : List Char} (hw : w ∈ words cs) {c : Char} (hc : c ∈ w) :
    isBlank c = false := by
  induction cs generalizing w with
  | nil => cases hw
  | cons d ds ih =>
    unfold words at hw
    split at hw
    · exact ih hw hc
    · next hd =>
      have hd' : isBlank d = false := by simpa using hd
      split at hw
      · rw [List.mem_cons] at hw
        rcases hw with rfl | hw
        · rw [List.mem_singleton] at hc
          rw [hc]
          exact hd'
        · exact ih hw hc
      · cases hws : words ds with
        | nil =>
          rw [hws, extendFirst, List.mem_singleton] at hw
          subst hw
          rw [List.mem_singleton] at hc
          rw [hc]
          exact hd'
        | cons v vs =>
          rw [hws] at ih hw
          rw [extendFirst, List.mem_cons] at hw
          rcases hw with rfl | hw
          · rw [List.mem_cons] at hc
            rcases hc with rfl | hc
            · exact hd'
            · exact ih List.mem_cons_self hc
          · exact ih (List.mem_cons_of_mem v hw) hc

theorem ne_nil_of_mem_words {cs w : List Char} (hw : w ∈ words cs) : w ≠ [] := by
  induction cs generalizing w with
  | nil => cases hw
  | cons c cs ih =>
    unfold words at hw
    split at hw
    · exact ih hw
    · split at hw
      · rcases List.mem_cons.1 hw with rfl | hw
        · exact List.cons_ne_nil c []
        · exact ih hw
      · cases hws : words cs with
        | nil =>
          rw [hws, extendFirst, List.mem_singleton] at hw
          rw [hw]
          exact List.cons_ne_nil c []
        | cons v vs =>
          rw [hws] at ih hw
          rcases List.mem_cons.1 hw with rfl | hw
          · exact List.cons_ne_nil c v
          · exact ih (List.mem_cons_of_mem v hw)

theorem words_of_no_blank {cs : List Char} (hne : cs ≠ []) (h : ∀ c ∈ cs, isBlank c = false) :
    words cs = [cs] := by
  induction cs with
  | nil => exact absurd rfl hne
  | cons c cs ih =>
    have hc : ¬ isBlank c = true := by rw [h c List.mem_cons_self]; simp
    rw [words, if_neg hc]
    cases cs with
    | nil => rfl
    | cons d ds =>
      have hd : isBlank d = false := h d (List.mem_cons_of_mem c List.mem_cons_self)
      have hend : ¬ endsWord (d :: ds) = true := by
        show ¬ isBlank d = true
        rw [hd]
        simp
      rw [if_neg hend, ih (List.cons_ne_nil d ds) fun x hx => h x (List.mem_cons_of_mem c hx)]
      rfl

theorem collapse_of_no_blank {cs : List Char} (h : ∀ c ∈ cs, isBlank c = false) :
    collapse cs = cs := by
  by_cases hne : cs = []
  · subst hne
    rfl
  · rw [collapse, words_of_no_blank hne h, List.intercalate_singleton]

section

variable {c : Char} {bs cs : List Char}

theorem words_blanks (hbs : isAllBlank bs = true) : words (bs ++ cs) = words cs := by
  induction bs with
  | nil => rfl
  | cons b bs ih =>
    rw [isAllBlank, List.all_cons, Bool.and_eq_true] at hbs
    rw [List.cons_append, words, if_pos hbs.1, ih hbs.2]

theorem flatten_extendFirst (c : Char) (pieces : List (List Char)) :
    (extendFirst c pieces).flatten = c :: pieces.flatten := by
  cases pieces <;> rfl

theorem count_flatten_words (hc : isBlank c = false) (cs : List Char) :
    (words cs).flatten.count c = cs.count c := by
  induction cs with
  | nil => rfl
  | cons d ds ih =>
    rw [words]
    split
    · next hd =>
      rw [ih, List.count_cons_of_ne (ne_of_isBlank hd hc)]
    · split
      · rw [List.flatten_cons, List.singleton_append, List.count_cons, List.count_cons, ih]
      · rw [flatten_extendFirst, List.count_cons, List.count_cons, ih]

/-- Collapsing keeps the characters that are not blank. -/
theorem count_collapse (hc : isBlank c = false) (cs : List Char) :
    (collapse cs).count c = cs.count c := by
  have hspace : ' ' ≠ c := ne_of_isBlank rfl hc
  have hjoin : ∀ ws : List (List Char), ([' '].intercalate ws).count c = ws.flatten.count c := by
    intro ws
    induction ws with
    | nil => rfl
    | cons w ws ih =>
      cases ws with
      | nil => simp
      | cons v ws =>
        rw [List.intercalate_cons_cons, List.count_append, List.count_append, ih,
          List.count_cons_of_ne hspace, List.flatten_cons, List.count_append]
        simp
  rw [collapse, hjoin, count_flatten_words hc]

end

/-! ## Tidy texts -/

/-- Words with one space between each two, and nothing at the ends. -/
structure IsTidy (cs : List Char) : Prop where
  ne_nil : cs ≠ []
  head_filled : ∀ c, cs.head? = some c → isBlank c = false
  last_filled : ∀ c, cs.getLast? = some c → isBlank c = false
  eq_space : ∀ c ∈ cs, isBlank c = true → c = ' '
  blanks_apart : cs.IsChain fun c d => isBlank c = false ∨ isBlank d = false

theorem isTidy_of_no_blank {w : List Char} (hne : w ≠ []) (hw : ∀ c ∈ w, isBlank c = false) :
    IsTidy w where
  ne_nil := hne
  head_filled c hc := hw c (List.mem_of_mem_head? hc)
  last_filled c hc := hw c (List.mem_of_mem_getLast? hc)
  eq_space c hc hblank := by
    rw [hw c hc] at hblank
    cases hblank
  blanks_apart :=
    (List.pairwise_of_forall_mem_list fun c hc _ _ => Or.inl (hw c hc)).isChain

/-- Two tidy texts with a space between them. -/
theorem IsTidy.append_space {us vs : List Char} (hus : IsTidy us) (hvs : IsTidy vs) :
    IsTidy (us ++ ' ' :: vs) where
  ne_nil := by simp
  head_filled c hc := by
    rw [List.head?_append, Option.or_of_isSome (List.isSome_head?.2 hus.ne_nil)] at hc
    exact hus.head_filled c hc
  last_filled c hc := by
    rw [List.getLast?_append, List.getLast?_cons_of_ne_nil hvs.ne_nil,
      Option.or_of_isSome (List.getLast?_isSome.2 hvs.ne_nil)] at hc
    exact hvs.last_filled c hc
  eq_space c hc hblank := by
    rw [List.mem_append, List.mem_cons] at hc
    rcases hc with hc | hc | hc
    · exact hus.eq_space c hc hblank
    · exact hc
    · exact hvs.eq_space c hc hblank
  blanks_apart := by
    have hspace : (' ' :: vs).IsChain fun c d => isBlank c = false ∨ isBlank d = false :=
      List.isChain_cons.2 ⟨fun d hd => Or.inr (hvs.head_filled d hd), hvs.blanks_apart⟩
    exact hus.blanks_apart.append hspace fun c hc d _ => Or.inl (hus.last_filled c hc)

theorem isTidy_intercalate {ws : List (List Char)} (hne : ws ≠ [])
    (hws : ∀ w ∈ ws, w ≠ [] ∧ ∀ c ∈ w, isBlank c = false) : IsTidy ([' '].intercalate ws) := by
  induction ws with
  | nil => exact absurd rfl hne
  | cons w ws ih =>
    obtain ⟨hw, hblank⟩ := hws w List.mem_cons_self
    have hfirst := isTidy_of_no_blank hw hblank
    cases ws with
    | nil =>
      rw [List.intercalate_singleton]
      exact hfirst
    | cons v vs =>
      have hrest := ih (List.cons_ne_nil v vs) fun x hx => hws x (List.mem_cons_of_mem w hx)
      rw [List.intercalate_cons_cons, List.append_assoc]
      exact hfirst.append_space hrest

theorem isTidy_collapse {cs : List Char} (h : collapse cs ≠ []) : IsTidy (collapse cs) := by
  refine isTidy_intercalate (fun hnil => h ?_) fun w hw =>
    ⟨ne_nil_of_mem_words hw, fun c hc => isBlank_of_mem_words hw hc⟩
  rw [collapse, hnil]
  rfl

theorem IsTidy.notMem {cs : List Char} (h : IsTidy cs) {c : Char} (hblank : isBlank c = true)
    (hne : c ≠ ' ') : c ∉ cs :=
  fun hc => hne (h.eq_space c hc hblank)

/-- The only blank that a collapsed text can hold is a space. -/
theorem eq_space_of_mem_collapse {cs : List Char} {c : Char} (hc : c ∈ collapse cs)
    (hblank : isBlank c = true) : c = ' ' :=
  (isTidy_collapse (List.ne_nil_of_mem hc)).eq_space c hc hblank

theorem collapse_ne_nil {cs : List Char} {c : Char} (hc : c ∈ cs) (hblank : isBlank c = false) :
    collapse cs ≠ [] := by
  have hword : ∃ d w ws, words cs = (d :: w) :: ws := by
    induction cs with
    | nil => cases hc
    | cons d ds ih =>
      unfold words
      split
      · next hd =>
        rw [List.mem_cons] at hc
        rcases hc with rfl | hc
        · rw [hblank] at hd
          cases hd
        · exact ih hc
      · split
        · exact ⟨d, [], words ds, rfl⟩
        · cases words ds with
          | nil => exact ⟨d, [], [], rfl⟩
          | cons w ws => exact ⟨d, w, ws, rfl⟩
  obtain ⟨d, w, ws, hws⟩ := hword
  rw [collapse, hws]
  cases ws with
  | nil => simp
  | cons v vs => simp [List.intercalate_cons_cons]

theorem notMem_of_collapse_eq {cs : List Char} (h : collapse cs = cs) {c : Char}
    (hblank : isBlank c = true) (hne : c ≠ ' ') : c ∉ cs := by
  intro hc
  rw [← h] at hc
  exact hne (eq_space_of_mem_collapse hc hblank)

/-! ## Trimmed texts -/

theorem dropWhile_of_no_blank {cs : List Char} (h : ∀ c ∈ cs, isBlank c = false) :
    cs.dropWhile isBlank = cs := by
  cases cs with
  | nil => rfl
  | cons c cs => rw [List.dropWhile_cons_of_neg (by rw [h c List.mem_cons_self]; simp)]

theorem trim_of_no_blank {cs : List Char} (h : ∀ c ∈ cs, isBlank c = false) : trim cs = cs := by
  rw [trim, dropWhile_of_no_blank h,
    dropWhile_of_no_blank (fun c hc => h c (List.mem_reverse.1 hc)), List.reverse_reverse]

theorem isAllBlank_takeWhile (cs : List Char) : isAllBlank (cs.takeWhile isBlank) = true :=
  List.all_eq_true.2 fun _ hc => List.mem_takeWhile_imp hc

theorem isAllBlank_reverse (cs : List Char) : isAllBlank cs.reverse = isAllBlank cs :=
  List.all_reverse

theorem exists_dropWhile_eq (cs : List Char) :
    ∃ es, isAllBlank es = true ∧ cs.dropWhile isBlank = trim cs ++ es := by
  refine ⟨((cs.dropWhile isBlank).reverse.takeWhile isBlank).reverse, ?_, ?_⟩
  · rw [isAllBlank_reverse]
    exact isAllBlank_takeWhile _
  · rw [trim, ← List.reverse_append, List.takeWhile_append_dropWhile, List.reverse_reverse]

/-- A text is its trimmed text with blanks before and behind it. -/
theorem exists_eq_append_trim (cs : List Char) : ∃ bs es, isAllBlank bs = true ∧
    isAllBlank es = true ∧ cs = bs ++ (trim cs ++ es) := by
  obtain ⟨es, hes, hdrop⟩ := exists_dropWhile_eq cs
  refine ⟨cs.takeWhile isBlank, es, isAllBlank_takeWhile cs, hes, ?_⟩
  rw [← hdrop, List.takeWhile_append_dropWhile]

theorem dropWhile_blanks {bs : List Char} (hbs : isAllBlank bs = true) (cs : List Char) :
    (bs ++ cs).dropWhile isBlank = cs.dropWhile isBlank :=
  List.dropWhile_append_of_pos (List.all_eq_true.1 hbs)

/-- Blanks around a text without any go when it is trimmed. -/
theorem trim_padded {bs cs es : List Char} (hbs : isAllBlank bs = true)
    (hes : isAllBlank es = true) (hcs : ∀ c ∈ cs, isBlank c = false) (hne : cs ≠ []) :
    trim (bs ++ (cs ++ es)) = cs := by
  have hfront : (bs ++ (cs ++ es)).dropWhile isBlank = cs ++ es := by
    rw [dropWhile_blanks hbs]
    obtain ⟨c, ds, rfl⟩ := List.exists_cons_of_ne_nil hne
    rw [List.cons_append,
      List.dropWhile_cons_of_neg (by rw [hcs c List.mem_cons_self]; simp)]
  rw [trim, hfront, List.reverse_append,
    dropWhile_blanks (by rw [isAllBlank_reverse]; exact hes),
    dropWhile_of_no_blank (fun c hc => hcs c (List.mem_reverse.1 hc)), List.reverse_reverse]

section

variable {c : Char} {cs : List Char}

theorem isBlank_of_head?_trim (h : (trim cs).head? = some c) : isBlank c = false := by
  obtain ⟨es, -, hdrop⟩ := exists_dropWhile_eq cs
  have hhead : (cs.dropWhile isBlank).head? = some c := by
    rw [hdrop, List.head?_append, h]
    rfl
  have hnot := List.head?_dropWhile_not isBlank cs
  rw [hhead] at hnot
  simpa using hnot

theorem isBlank_of_getLast?_trim (h : (trim cs).getLast? = some c) : isBlank c = false := by
  rw [trim, List.getLast?_reverse] at h
  have hnot := List.head?_dropWhile_not isBlank (cs.dropWhile isBlank).reverse
  rw [h] at hnot
  simpa using hnot

end

/-- A text with one space in the place of each run of blanks. -/
def squeeze : List Char → List Char
  | [] => []
  | c :: cs =>
    if isBlank c then if cs.head?.any isBlank then squeeze cs else ' ' :: squeeze cs
    else c :: squeeze cs

theorem words_append_blanks {bs : List Char} (hbs : isAllBlank bs = true) (cs : List Char) :
    words (cs ++ bs) = words cs := by
  induction cs with
  | nil =>
    have h : words (bs ++ []) = words [] := words_blanks hbs
    rwa [List.append_nil] at h
  | cons c cs ih =>
    have hends : endsWord (cs ++ bs) = endsWord cs := by
      cases cs with
      | nil =>
        cases bs with
        | nil => rfl
        | cons b bs =>
          rw [isAllBlank, List.all_cons, Bool.and_eq_true] at hbs
          exact hbs.1
      | cons d ds => rfl
    rw [List.cons_append, words, words, ih, hends]

section

variable {c : Char} {cs : List Char}

/-- A character that is not blank begins a word of its own or goes on into the next
word. -/
theorem collapse_cons (hc : isBlank c = false) (hne : collapse cs ≠ []) :
    collapse (c :: cs) = if endsWord cs then c :: ' ' :: collapse cs else c :: collapse cs := by
  have hc' : ¬ isBlank c = true := by rw [hc]; exact Bool.false_ne_true
  obtain ⟨w, ws, hws⟩ : ∃ w ws, words cs = w :: ws := by
    cases hws : words cs with
    | nil => exact absurd (by rw [collapse, hws]; rfl) hne
    | cons w ws => exact ⟨w, ws, rfl⟩
  rw [collapse, words, if_neg hc', collapse, hws]
  split
  · rw [List.intercalate_cons_cons]
    rfl
  · cases ws with
    | nil => simp [extendFirst]
    | cons v vs => simp [extendFirst, List.intercalate_cons_cons]

/-- Squeezing a text that does not end in a blank joins its words, with a space before
them if it starts with a blank. -/
theorem squeeze_eq (hlast : ∀ c, cs.getLast? = some c → isBlank c = false) :
    squeeze cs = if cs.head?.any isBlank then ' ' :: collapse cs else collapse cs := by
  induction cs with
  | nil => rfl
  | cons c cs ih =>
    cases cs with
    | nil =>
      have hc : isBlank c = false := hlast c rfl
      simp [squeeze, collapse, words, endsWord, hc]
    | cons d ds =>
      have hlast' : ∀ x, (d :: ds).getLast? = some x → isBlank x = false := fun x hx =>
        hlast x (by rw [List.getLast?_cons_cons]; exact hx)
      have hfilled : collapse (d :: ds) ≠ [] := by
        have hmem := List.getLast_mem (List.cons_ne_nil d ds)
        exact collapse_ne_nil hmem (hlast' _ (List.getLast?_eq_some_getLast _))
      rw [squeeze, ih hlast', List.head?_cons, Option.any_some, List.head?_cons, Option.any_some]
      by_cases hc : isBlank c = true
      · have hwords : collapse (c :: d :: ds) = collapse (d :: ds) := by
          rw [collapse, words, if_pos hc, collapse]
        rw [if_pos hc, if_pos hc, hwords]
        split <;> rfl
      · rw [if_neg hc, if_neg hc, collapse_cons (by simpa using hc) hfilled]
        change c :: (if isBlank d = true then _ else _) = if isBlank d = true then _ else _
        split <;> rfl

end

theorem collapse_eq_squeeze_trim (cs : List Char) : collapse cs = squeeze (trim cs) := by
  obtain ⟨bs, es, hbs, hes, hcs⟩ := exists_eq_append_trim cs
  have hwords : words cs = words (trim cs) := by
    conv_lhs => rw [hcs, words_blanks hbs, words_append_blanks hes]
  have hhead : (trim cs).head?.any isBlank = false := by
    rw [Option.any_eq_false]
    intro c hc
    exact isBlank_of_head?_trim hc
  rw [squeeze_eq fun _ => isBlank_of_getLast?_trim, hhead, if_neg Bool.false_ne_true, collapse,
    collapse, hwords]

end Text
end Sectioning
