/-
The matches of a command pattern in a text.

A text is matched from left to right, and the next match is looked for behind the one
before (`matchesFrom`).  `Matched` says what each step does: it passes a character at
which no match begins, or it takes a match.  So the matches are apart from each other and
in the order of the text (`Matched.pairwise`), and each is a piece of it (`Matched.mem`).

Scanning reports the matches of the pattern, all but the inclusions that end in a percent
sign (`scan_eq_scanBy`).  Each of them is spelled as a command: a backslash, the name,
blanks, comments and at most one star, and a delimiter (`At.exists_spells`).
-/
import Sectioning.Proofs.Headings
import Sectioning.Proofs.Patterns

namespace Sectioning

/-- A match: where it stands, and its own text. -/
structure Match where
  occurrence : Occurrence
  text : List Char

namespace Pattern

/-- The matches in a text at `p`, leaving out those that begin within its first `covered`
characters. -/
def matchesFrom (ending : Pattern) : Nat → Position → List Char → List Match
  | _, _, [] => []
  | covered + 1, p, c :: cs => matchesFrom ending covered (p.after c) cs
  | 0, p, c :: cs =>
    match commandAt? ending (c :: cs) with
    | none => matchesFrom ending 0 (p.after c) cs
    | some (k, form) =>
      ⟨⟨k, ⟨p, p.afterAll form⟩⟩, form⟩ :: matchesFrom ending (form.length - 1) (p.after c) cs

def matchesIn (ending : Pattern) (b : Buffer) : List Match :=
  matchesFrom ending 0 .start b.text

/-- The occurrences that scanning with the pattern `ending` reports. -/
def scanBy (ending : Pattern) (b : Buffer) : List Occurrence :=
  ((matchesIn ending b).filter fun m =>
    Occurrence.isReported m.occurrence.keyword m.text).map (·.occurrence)

/-! ## Step by step -/

inductive Matched (ending : Pattern) : Position → List Char → List Match → Prop where
  | nil {p : Position} : Matched ending p [] []
  | skip {p : Position} {c : Char} {cs : List Char} {ms : List Match} :
      commandAt? ending (c :: cs) = none → Matched ending (p.after c) cs ms →
      Matched ending p (c :: cs) ms
  | take {p : Position} {k : Keyword} {form vs : List Char} {ms : List Match} :
      commandAt? ending (form ++ vs) = some (k, form) → Matched ending (p.afterAll form) vs ms →
      Matched ending p (form ++ vs) (⟨⟨k, ⟨p, p.afterAll form⟩⟩, form⟩ :: ms)

variable {ending : Pattern} {p : Position} {k : Keyword} {c : Char} {cs form us vs : List Char}
  {ms : List Match} {b : Buffer}

theorem exists_of_commandAt? (h : commandAt? ending cs = some (k, form)) :
    ∃ fs vs, form = '\\' :: fs ∧ cs = form ++ vs := by
  unfold commandAt? at h
  split at h
  · next ds =>
    obtain ⟨⟨rest, rest'⟩, -, h⟩ := Option.bind_eq_some_iff.1 h
    obtain ⟨k', -, hform⟩ := Option.map_eq_some_iff.1 h
    cases hform
    refine ⟨_, ds.drop (ds.length - rest'.length), rfl, ?_⟩
    rw [List.cons_append, List.take_append_drop]
  · cases h

theorem matchesFrom_covered (us : List Char) (p : Position) (vs : List Char) :
    matchesFrom ending us.length p (us ++ vs) = matchesFrom ending 0 (p.afterAll us) vs := by
  induction us generalizing p with
  | nil => rfl
  | cons u us ih => rw [List.length_cons, List.cons_append, matchesFrom, ih, Position.afterAll_cons]

theorem matchesFrom_none (h : commandAt? ending (c :: cs) = none) (p : Position) :
    matchesFrom ending 0 p (c :: cs) = matchesFrom ending 0 (p.after c) cs := by
  rw [matchesFrom, h]

theorem matchesFrom_some (h : commandAt? ending (form ++ vs) = some (k, form)) (p : Position) :
    matchesFrom ending 0 p (form ++ vs) =
      ⟨⟨k, ⟨p, p.afterAll form⟩⟩, form⟩ :: matchesFrom ending 0 (p.afterAll form) vs := by
  obtain ⟨fs, -, rfl, -⟩ := exists_of_commandAt? h
  rw [List.cons_append] at h ⊢
  rw [matchesFrom, h]
  show _ :: matchesFrom ending fs.length (p.after '\\') (fs ++ vs) = _
  rw [matchesFrom_covered, Position.afterAll_cons]

theorem matched_matchesFrom (ending : Pattern) (p : Position) (cs : List Char) :
    Matched ending p cs (matchesFrom ending 0 p cs) := by
  induction hn : cs.length using Nat.strongRecOn generalizing p cs with
  | ind n ih =>
    cases cs with
    | nil => exact .nil
    | cons c cs =>
      rw [List.length_cons] at hn
      cases h : commandAt? ending (c :: cs) with
      | none =>
        rw [matchesFrom_none h]
        exact .skip h (ih cs.length (by omega) _ cs rfl)
      | some found =>
        obtain ⟨k, form⟩ := found
        obtain ⟨fs, vs, hfs, hcs⟩ := exists_of_commandAt? h
        have hlen : cs.length + 1 = fs.length + 1 + vs.length := by
          have hlength := congrArg List.length hcs
          rw [hfs, List.length_append, List.length_cons, List.length_cons] at hlength
          exact hlength
        rw [hcs] at h ⊢
        rw [matchesFrom_some h]
        exact .take h (ih vs.length (by omega) _ vs rfl)

theorem Matched.eq_matchesFrom (h : Matched ending p cs ms) :
    ms = matchesFrom ending 0 p cs := by
  induction h with
  | nil => rfl
  | skip hnone _ ih => rw [matchesFrom_none hnone, ih]
  | take hform _ ih => rw [matchesFrom_some hform, ih]

/-- The matches begin at `p` or later, and each of them ends before the next one begins. -/
theorem Matched.pairwise (h : Matched ending p cs ms) :
    (∀ m ∈ ms, p ≤ m.occurrence.range.start) ∧
      ms.Pairwise fun m m' => m.occurrence.range.stop ≤ m'.occurrence.range.start := by
  induction h with
  | nil => exact ⟨fun m hm => absurd hm List.not_mem_nil, .nil⟩
  | @skip p c cs ms _ _ ih =>
    refine ⟨fun m hm => ?_, ih.2⟩
    exact Position.le_of_lt (Position.lt_of_after_le (ih.1 m hm))
  | @take p k form vs ms hform _ ih =>
    refine ⟨fun m hm => ?_, List.pairwise_cons.2 ⟨ih.1, ih.2⟩⟩
    have hle := Position.le_afterAll form p
    rw [Position.le_iff] at hle ⊢
    rcases List.mem_cons.1 hm with rfl | hm
    · exact Or.inr ⟨rfl, Nat.le_refl _⟩
    · have hlater := ih.1 m hm
      rw [Position.le_iff] at hlater
      omega

/-- A match is a piece of the text. -/
theorem Matched.mem (h : Matched ending p cs ms) (hs : b.Splits p us cs) {m : Match}
    (hm : m ∈ ms) : ∃ us' vs', b.Splits m.occurrence.range.start us' (m.text ++ vs') ∧
      b.Splits m.occurrence.range.stop (us' ++ m.text) vs' ∧
      commandAt? ending (m.text ++ vs') = some (m.occurrence.keyword, m.text) := by
  induction h generalizing us with
  | nil => cases hm
  | skip _ _ ih => exact ih hs.step hm
  | take hform _ ih =>
    rcases List.mem_cons.1 hm with rfl | hm
    · exact ⟨us, _, hs, hs.steps, hform⟩
    · exact ih hs.steps hm

end Pattern

namespace Occurrence

open Pattern

theorem scanFrom_take {k : Keyword} {form vs : List Char}
    (h : formAt? (form ++ vs) = some (k, form)) (p : Position) :
    scanFrom 0 p (form ++ vs) =
      (if isReported k form then [⟨k, ⟨p, p.afterAll form⟩⟩] else []) ++
        scanFrom 0 (p.afterAll form) vs := by
  obtain ⟨rest, part, -, -, hform⟩ := exists_of_formAt? h
  subst hform
  rw [List.cons_append] at h ⊢
  rcases scanFrom_cons 0 p '\\' (k.name.toList ++ part ++ vs) with
    ⟨hpos, -⟩ | ⟨-, hnone, -⟩ | ⟨k', form', -, hform, heq⟩
  · exact absurd hpos (Nat.lt_irrefl 0)
  · rw [h] at hnone
    cases hnone
  · rw [h] at hform
    cases hform
    rw [heq, List.length_cons, Nat.add_sub_cancel, scanFrom_covered, Position.afterAll_cons]

/-- Scanning reports what the pattern matches. -/
theorem scan_eq_scanBy (b : Buffer) : scan b = scanBy endings b := by
  have hmatched : ∀ {p cs ms}, Matched endings p cs ms → scanFrom 0 p cs =
      (ms.filter fun m => isReported m.occurrence.keyword m.text).map (·.occurrence) := by
    intro p cs ms h
    induction h with
    | nil => rfl
    | skip hnone _ ih =>
      rw [commandAt?_endings] at hnone
      rw [scanFrom_of_formAt?_eq_none hnone, ih]
    | @take p k form vs ms hform _ ih =>
      rw [commandAt?_endings] at hform
      rw [scanFrom_take hform, ih]
      rw [List.filter_cons]
      by_cases hr : isReported k form = true
      · rw [if_pos hr, if_pos hr]
        rfl
      · rw [if_neg hr, if_neg hr]
        rfl
  exact hmatched (matched_matchesFrom endings .start b.text)

/-! ## Spelling -/

/-- Whether a text can stand between the name of a command and its delimiter: blanks,
comments and a star, if there has been none before. -/
def isFilling : (starred inComment : Bool) → List Char → Bool
  | _, _, [] => true
  | starred, true, c :: cs => isFilling starred (c != '\n') cs
  | starred, false, c :: cs =>
    if c = '*' then !starred && isFilling true false cs
    else (isBlank c || c == '%') && isFilling starred (c == '%') cs

theorem isFilling_cons {starred inComment : Bool} {c : Char} (h : goesOn inComment c = true)
    (cs : List Char) :
    isFilling starred inComment (c :: cs) = isFilling starred (commentAfter inComment c) cs := by
  cases inComment with
  | true => rfl
  | false =>
    have hstar : c ≠ '*' := by
      intro hc
      rw [hc] at h
      exact absurd h (by decide)
    rw [isFilling, if_neg hstar]
    rw [goesOn, Bool.false_or] at h
    rw [h, Bool.true_and]
    rfl

theorem isFilling_of_covered {starred inComment : Bool} {cs us vs : List Char}
    (h : covered inComment cs = us ++ vs) : isFilling starred inComment us = true := by
  induction us generalizing inComment cs with
  | nil => cases inComment <;> rfl
  | cons u us ih =>
    cases cs with
    | nil => cases h
    | cons c cs =>
      by_cases hc : goesOn inComment c = true
      · rw [covered_cons hc, List.cons_append, List.cons.injEq] at h
        rw [← h.1, isFilling_cons hc]
        exact ih h.2
      · rw [covered_stop hc] at h
        cases h

theorem isFilling_covered_append {starred inComment : Bool} {cs : List Char}
    (h : behind inComment cs ≠ []) (us : List Char) :
    isFilling starred inComment (covered inComment cs ++ us) = isFilling starred false us := by
  induction cs generalizing inComment with
  | nil => exact absurd rfl h
  | cons c cs ih =>
    by_cases hc : goesOn inComment c = true
    · rw [behind_cons hc] at h
      rw [covered_cons hc, List.cons_append, isFilling_cons hc, ih h]
    · rw [covered_stop hc]
      cases inComment with
      | true => exact absurd rfl hc
      | false => rfl

theorem isFilling_of_isBlank {us : List Char} (h : ∀ c ∈ us, isBlank c = true) :
    isFilling false false us = true := by
  induction us with
  | nil => rfl
  | cons u us ih =>
    rw [List.forall_mem_cons] at h
    obtain ⟨hgoes, hafter⟩ := goesOn_of_isBlank h.1
    rw [isFilling_cons hgoes, hafter]
    exact ih h.2

theorem exists_filling {cs part : List Char} (h : ending? cs = some part) :
    ∃ filling d, part = filling ++ [d] ∧ isFilling false false filling = true ∧
      (d = '{' ∨ d = '[' ∨ d = '%' ∧ ∀ c ∈ filling, isBlank c = true) := by
  rcases ending?_cases h with ⟨vs, lead, hbehind, hlead, rfl⟩ | h | h | ⟨vs, -, rfl⟩
  · obtain ⟨us, ws, rfl, hcov⟩ := exists_of_gapTo? hlead
    refine ⟨covered false cs ++ '*' :: us, '{', by simp, ?_, Or.inl rfl⟩
    rw [isFilling_covered_append (by rw [hbehind]; exact List.cons_ne_nil _ _)]
    show isFilling true false us = true
    exact isFilling_of_covered hcov
  · obtain ⟨us, vs, rfl, hcov⟩ := exists_of_gapTo? h
    exact ⟨us, '{', rfl, isFilling_of_covered hcov, Or.inl rfl⟩
  · obtain ⟨us, vs, rfl, hcov⟩ := exists_of_gapTo? h
    exact ⟨us, '[', rfl, isFilling_of_covered hcov, Or.inr (Or.inl rfl)⟩
  · have hblank : ∀ c ∈ cs.takeWhile isBlank, isBlank c = true :=
      fun c hc => List.mem_takeWhile_imp hc
    exact ⟨_, '%', rfl, isFilling_of_isBlank hblank, Or.inr (Or.inr ⟨rfl, hblank⟩)⟩

/-- The parts of an occurrence, and where they stand. -/
theorem At.exists_parts {b : Buffer} {o : Occurrence} (h : o.At b) :
    ∃ us filling d vs,
      b.Splits o.range.start us ('\\' :: (o.keyword.name.toList ++ filling) ++ [d] ++ vs) ∧
      b.Splits o.delimiter (us ++ '\\' :: (o.keyword.name.toList ++ filling)) (d :: vs) ∧
      b.Splits o.range.stop (us ++ ('\\' :: (o.keyword.name.toList ++ filling) ++ [d])) vs ∧
      ending? (filling ++ [d] ++ vs) = some (filling ++ [d]) ∧
      isReported o.keyword ('\\' :: (o.keyword.name.toList ++ filling) ++ [d]) = true ∧
      isFilling false false filling = true ∧
      (d = '{' ∨ d = '[' ∨ d = '%' ∧ ∀ c ∈ filling, isBlank c = true) := by
  obtain ⟨us, cs, form, hs, hform, hreported, hstop⟩ := h
  obtain ⟨rest, part, rfl, hpart, rfl⟩ := exists_of_formAt? hform
  obtain ⟨filling, d, rfl, hfilling, hd⟩ := exists_filling hpart
  obtain ⟨vs, rfl⟩ := exists_append_of_ending? hpart
  have hlead : '\\' :: (o.keyword.name.toList ++ (filling ++ [d])) =
      '\\' :: (o.keyword.name.toList ++ filling) ++ [d] := by simp
  have htext : '\\' :: (o.keyword.name.toList ++ (filling ++ [d] ++ vs)) =
      '\\' :: (o.keyword.name.toList ++ filling) ++ [d] ++ vs := by simp
  have hone : d ≠ '\n' ∧ d.utf8Size = 1 := by
    rcases hd with rfl | rfl | ⟨rfl, -⟩ <;> decide
  rw [hlead] at hstop hreported
  rw [htext] at hs
  have hstops := hs.steps
  rw [← hstop] at hstops
  have hdelimiter := hs
  rw [List.append_assoc] at hdelimiter
  have hdelimiter := hdelimiter.steps
  rw [← delimiter_eq hstop hone.1 hone.2] at hdelimiter
  exact ⟨us, filling, d, vs, hs, hdelimiter, hstops, hpart, hreported, hfilling, hd⟩

/-- The occurrence stands behind `us`, with the delimiter `d` and `vs` after it. -/
structure Spells (b : Buffer) (o : Occurrence) (us filling : List Char) (d : Char)
    (vs : List Char) : Prop where
  text_eq : b.text = us ++ ('\\' :: (o.keyword.name.toList ++ filling) ++ d :: vs)
  excerpt?_eq : b.excerpt? o.range = some ('\\' :: (o.keyword.name.toList ++ filling) ++ [d])
  start_eq : b.positionAt? (Text.byteLength us) = some o.range.start
  delimiter_eq : b.positionAt?
    (Text.byteLength (us ++ '\\' :: (o.keyword.name.toList ++ filling))) = some o.delimiter
  stop_eq : b.positionAt?
    (Text.byteLength (us ++ '\\' :: (o.keyword.name.toList ++ filling) ++ [d])) =
      some o.range.stop
  row_eq : o.delimiter.row = o.range.stop.row
  isFilling : Occurrence.isFilling false false filling = true
  isDelimiter : d = '{' ∨ d = '[' ∨ d = '%' ∧ o.keyword.isInclusion = false
  endsName : ∃ c, (filling ++ [d]).head? = some c ∧ Occurrence.endsName c = true ∧
    c.isAlphanum = false

theorem At.exists_spells {b : Buffer} {o : Occurrence} (h : o.At b) :
    ∃ us filling d vs, o.Spells b us filling d vs := by
  obtain ⟨us, filling, d, vs, hs, hdelimiter, hstop, hpart, hreported, hfilling, hd⟩ :=
    h.exists_parts
  obtain ⟨c, ds, hc, hends⟩ := exists_endsName_of_ending? hpart
  refine ⟨us, filling, d, vs, ⟨?_, hs.excerpt? hstop, hs.positionAt?, hdelimiter.positionAt?, ?_,
    rfl, hfilling, ?_, c, ?_, hends, isAlphanum_of_endsName hends⟩⟩
  · rw [hs.text_eq, List.append_assoc, List.singleton_append]
  · rw [List.append_assoc]
    exact hstop.positionAt?
  · rw [isReported_concat] at hreported
    rcases hd with rfl | rfl | ⟨rfl, -⟩
    · exact Or.inl rfl
    · exact Or.inr (Or.inl rfl)
    · refine Or.inr (Or.inr ⟨rfl, ?_⟩)
      simpa using hreported
  · have hhead := congrArg List.head? hc
    rw [List.head?_append_of_ne_nil _ (by simp)] at hhead
    exact hhead

/-- The scanner reports commands in the order of the text and apart from each other, each
of them spelled out in the text, and leaves out only inclusions that end in a percent
sign. -/
theorem scan_spells_in_order (b : Buffer) :
    (scan b).Pairwise (fun o o' => o.range.stop ≤ o'.range.start) ∧
    (∀ o ∈ scan b, o.range.start < o.range.stop ∧
      ∃ us filling d vs, o.Spells b us filling d vs) ∧
    scan b = ((matchesIn endings b).filter fun m =>
      !(m.occurrence.keyword.isInclusion && m.text.getLast? == some '%')).map (·.occurrence) := by
  refine ⟨?_, fun o ho => ⟨?_, (at_of_mem_scan ho).exists_spells⟩, scan_eq_scanBy b⟩
  · rw [scan_eq_scanBy, scanBy, List.pairwise_map]
    exact (matched_matchesFrom endings .start b.text).pairwise.2.filter _
  · obtain ⟨us, vs, form, -, hform, -, hstop⟩ := at_of_mem_scan ho
    obtain ⟨rest, part, -, -, rfl⟩ := exists_of_formAt? hform
    rw [hstop]
    exact Position.lt_afterAll (List.cons_ne_nil _ _) _

end Occurrence
end Sectioning
