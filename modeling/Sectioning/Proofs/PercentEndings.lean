/-
Commands that end in a percent sign.

The last alternative of the command pattern, blanks up to a percent sign, is of no
consequence.  A form that it matches has no brace and no bracket behind its comments, or
an alternative before it would have matched.  There the reader of the argument stands after
skipping blanks and comments (`skip?_eq`), and so the form is rejected
(`At.argument?_of_percent`).

Without the alternative the pattern has the same matches but these
(`Matched.delimited`), because none begins inside of one.  So every document has the same
headings and inclusions, and every build is the same (`expandBy_congr`).
-/
import Sectioning.Proofs.Arguments
import Sectioning.Proofs.CommandForms
import Sectioning.Proofs.Matches

namespace Sectioning

/-! ## Skipping blanks and comments -/

namespace Cursor

open Occurrence (covered behind covered_cons behind_cons covered_stop behind_stop goesOn
  goesOn_of_isBlank covered_true_append covered_true_of_notMem)

theorem skipBlank?_percent (p : Position) (l : List Char) (ls : List (List Char)) :
    (before p '%' l ls).skipBlank? = (firstFilled? (p.row + 1) ls).bind skipBlank? := by
  rw [skipBlank?_first rfl, if_pos rfl]
  rfl

theorem skip?_comment {w : List Char} (hw : '\n' ∉ w) (p : Position) (cs : List Char) :
    skip? p ('%' :: (w ++ '\n' :: cs)) = skip? (p.afterAll ('%' :: (w ++ ['\n']))) cs := by
  rw [afterAll_comment hw, ← skip?_blank rfl, skip?,
    atText?_cons (by decide) (Text.lines_append_newline hw cs), Option.bind_some,
    skipBlank?_percent, skip?, atText?_newline]

theorem skip?_comment_end {w : List Char} (hw : '\n' ∉ w) (p : Position) :
    skip? p ('%' :: w) = none := by
  rw [skip?, atText?_cons (by decide) (Text.lines_of_notMem hw), Option.bind_some,
    skipBlank?_percent]
  rfl

/-- The reader skips what the pattern takes for blanks and comments. -/
theorem skip?_eq (p : Position) (cs : List Char) :
    skip? p cs = atText? (p.afterAll (covered false cs)) (behind false cs) := by
  induction hn : cs.length using Nat.strongRecOn generalizing p cs with
  | ind n ih =>
    cases cs with
    | nil => rfl
    | cons c cs =>
      rw [List.length_cons] at hn
      by_cases hblank : isBlank c = true
      · obtain ⟨hgoes, hafter⟩ := goesOn_of_isBlank hblank
        rw [skip?_blank hblank, covered_cons hgoes, behind_cons hgoes, hafter,
          Position.afterAll_cons]
        exact ih cs.length (by omega) _ cs rfl
      · by_cases hcom : c = '%'
        · subst hcom
          -- the comment takes the rest of its line, or the rest of the text
          obtain ⟨w, ls, hl⟩ := Text.exists_lines_eq_cons cs
          obtain ⟨hw, h⟩ := Text.lines_eq_cons hl
          rw [covered_cons rfl, behind_cons rfl]
          show _ = atText? (p.afterAll ('%' :: covered true cs)) (behind true cs)
          rcases h with ⟨-, rfl⟩ | ⟨ds, rfl, -⟩
          · rw [skip?_comment_end hw, (covered_true_of_notMem hw).2]
            rfl
          · have hlen : ds.length < n := by
              rw [List.length_append, List.length_cons] at hn
              omega
            have hplace : '%' :: (w ++ '\n' :: covered false ds) =
                '%' :: (w ++ ['\n']) ++ covered false ds := by simp
            rw [skip?_comment hw, (covered_true_append hw ds).1, (covered_true_append hw ds).2,
              hplace, Position.afterAll_append]
            exact ih ds.length hlen _ ds rfl
        · have hstop : ¬ goesOn false c = true := by simp [goesOn, hblank, hcom]
          rw [covered_stop hstop, behind_stop hstop, skip?_stop (by simpa using hblank) hcom]
          rfl

end Cursor

/-! ## Forms that end in a percent sign -/

namespace Occurrence

open Pattern

theorem behind_blanks {bs : List Char} (h : ∀ c ∈ bs, isBlank c = true) (cs : List Char) :
    behind false (bs ++ cs) = behind false cs := by
  induction bs with
  | nil => rfl
  | cons b bs ih =>
    rw [List.forall_mem_cons] at h
    obtain ⟨hgoes, hafter⟩ := goesOn_of_isBlank h.1
    rw [List.cons_append, behind_cons hgoes, hafter, ih h.2]

theorem not_goesOn_of_behind {inComment : Bool} {c : Char} {cs ds : List Char}
    (h : behind inComment cs = c :: ds) : ¬ goesOn false c = true := by
  induction cs generalizing inComment with
  | nil => cases h
  | cons e es ih =>
    by_cases he : goesOn inComment e = true
    · rw [behind_cons he] at h
      exact ih h
    · rw [behind_stop he] at h
      cases h
      cases inComment with
      | true => exact absurd rfl he
      | false => exact he

/-- The ending of a command that leads to a brace or to a bracket. -/
def delimitedEnding? (cs : List Char) : Option (List Char) :=
  ((starredGap? cs).or (gapTo? '{' cs)).or (gapTo? '[' cs)

theorem getLast?_of_delimitedEnding? {cs part : List Char} (h : delimitedEnding? cs = some part) :
    part.getLast? = some '{' ∨ part.getLast? = some '[' := by
  rw [delimitedEnding?, Option.or_eq_some_iff, Option.or_eq_some_iff] at h
  rcases h with (h | ⟨-, h⟩) | ⟨-, h⟩
  · obtain ⟨us, rfl⟩ := exists_of_starredGap? h
    exact Or.inl List.getLast?_concat
  · obtain ⟨us, -, rfl, -⟩ := exists_of_gapTo? h
    exact Or.inl List.getLast?_concat
  · obtain ⟨us, -, rfl, -⟩ := exists_of_gapTo? h
    exact Or.inr List.getLast?_concat

theorem getLast?_form (k : Keyword) (us : List Char) (d : Char) :
    ('\\' :: (k.name.toList ++ (us ++ [d]))).getLast? = some d := by
  rw [← List.append_assoc, ← List.cons_append, List.getLast?_concat]

theorem getLast?_of_blanksToComment? {cs part : List Char} (h : blanksToComment? cs = some part) :
    part.getLast? = some '%' := by
  rw [blanksToComment?] at h
  split at h
  · cases h
    exact List.getLast?_concat
  · cases h

theorem delimitedEnding?_eq (cs : List Char) :
    delimitedEnding? cs = (ending? cs).filter fun part => part.getLast? != some '%' := by
  have hending : ending? cs = (delimitedEnding? cs).or (blanksToComment? cs) := by
    rw [ending?_eq, delimitedEnding?, Option.or_assoc, Option.or_assoc]
  rw [hending]
  cases hpart : delimitedEnding? cs with
  | some part =>
    rw [Option.some_or, Option.filter_some, if_pos]
    rcases getLast?_of_delimitedEnding? hpart with hlast | hlast <;> rw [hlast] <;> rfl
  | none =>
    rw [Option.none_or]
    cases hpart : blanksToComment? cs with
    | none => rfl
    | some part =>
      rw [Option.filter_some, getLast?_of_blanksToComment? hpart]
      rfl

/-- The last character of an occurrence. -/
def lastSign? (b : Buffer) (o : Occurrence) : Option Char :=
  (b.excerpt? o.range).bind List.getLast?

theorem lastSign?_eq {b : Buffer} {o : Occurrence} {us form vs : List Char}
    (hs : b.Splits o.range.start us (form ++ vs)) (hs' : b.Splits o.range.stop (us ++ form) vs) :
    o.lastSign? b = form.getLast? := by
  rw [lastSign?, hs.excerpt? hs', Option.bind_some]

/-- A reader that finds neither a brace nor a bracket behind the comments finds no
argument. -/
theorem argument?_eq_none {b : Buffer} {o : Occurrence} {us vs : List Char}
    (hs : b.Splits o.delimiter us ('%' :: vs))
    (hbrace : (behind false ('%' :: vs)).head? ≠ some '{')
    (hbracket : (behind false ('%' :: vs)).head? ≠ some '[') : o.argument? b = none := by
  have hread : (b.cursorAt? o.delimiter).bind Cursor.skipBlank? =
      Cursor.skip? o.delimiter ('%' :: vs) := by
    obtain ⟨l, ls, hl⟩ := Text.exists_lines_eq_cons vs
    rw [hs.cursorAt? (by decide) hl, Cursor.skip?, Cursor.atText?_cons (by decide) hl]
  rw [argument?]
  split
  · rw [← Option.bind_assoc, hread, Cursor.skip?_eq]
    cases hbehind : behind false ('%' :: vs) with
    | nil => rfl
    | cons c cs =>
      rw [hbehind, List.head?_cons] at hbrace hbracket
      have hn : c ≠ '\n' := by
        intro hc
        subst hc
        exact not_goesOn_of_behind hbehind rfl
      obtain ⟨d, hd⟩ := Cursor.exists_atText? hn
        (o.delimiter.afterAll (covered false ('%' :: vs))) cs
      have hoctet : ∀ e, some c ≠ some e → d.octet ≠ .first e := by
        intro e hne heq
        rw [(Cursor.octet_of_atText? hd hn).1, Octet.first.injEq] at heq
        exact hne (congrArg some heq)
      rw [hd, Option.bind_some, Cursor.passShortTitle?, if_neg (hoctet _ hbracket),
        Option.bind_some, Cursor.bracedRange?, if_neg (hoctet _ hbrace)]
  · rfl

/-- A command that ends in a percent sign has no argument. -/
theorem At.argument?_of_percent {b : Buffer} {o : Occurrence} (h : o.At b)
    (hlast : o.lastSign? b = some '%') : o.argument? b = none := by
  obtain ⟨us, bs, d, vs, hs, hdelimiter, hstop, hpart, -, -, hd⟩ := h.exists_parts
  rw [lastSign?_eq hs hstop, List.getLast?_concat, Option.some.injEq] at hlast
  subst hlast
  have hbs : ∀ c ∈ bs, isBlank c = true := by simpa using hd
  -- an earlier alternative would have been preferred
  have hnone : delimitedEnding? (bs ++ ['%'] ++ vs) = none := by
    rw [delimitedEnding?_eq, hpart, Option.filter_some, List.getLast?_concat]
    rfl
  have hhead : ∀ d, gapTo? d (bs ++ ['%'] ++ vs) = none →
      (behind false ('%' :: vs)).head? ≠ some d := by
    intro d hgap hhead
    rw [← behind_blanks hbs] at hhead
    rw [List.append_assoc, List.singleton_append, gapTo?_of_head? hhead] at hgap
    cases hgap
  simp only [delimitedEnding?, Option.or_eq_none_iff] at hnone
  exact argument?_eq_none hdelimiter (hhead _ hnone.1.2) (hhead _ hnone.2)

end Occurrence

namespace Pattern

open Occurrence

/-- The command pattern without its last alternative. -/
def delimited : Pattern :=
  alt toBrace toBracket

theorem run_delimited (cs : List Char) :
    delimited.run some cs = (delimitedEnding? cs).map fun part => cs.drop part.length := by
  show (toBrace.run some cs).or (toBracket.run some cs) = _
  rw [run_toBrace, toBracket, run_gap_sign, ← Option.map_or]
  rfl

theorem commandAt?_delimited (cs : List Char) :
    commandAt? delimited cs = (formAt? cs).filter fun found => found.2.getLast? != some '%' := by
  have happend : ∀ {cs part}, delimitedEnding? cs = some part → ∃ vs, cs = part ++ vs := by
    intro cs part h
    rw [delimitedEnding?_eq, Option.filter_eq_some_iff] at h
    exact exists_append_of_ending? h.1
  cases cs with
  | nil => rfl
  | cons c cs =>
    by_cases hc : c = '\\'
    · subst hc
      rw [commandAt?_eq run_delimited happend]
      cases hk : keywordAt? cs with
      | none =>
        rw [formAt?, hk]
        rfl
      | some k =>
        obtain ⟨rest, rfl⟩ := exists_of_keywordAt? hk
        rw [Option.bind_some, List.drop_left, delimitedEnding?_eq, formAt?_command]
        cases hpart : ending? rest with
        | none => rfl
        | some part =>
          obtain ⟨us, d, rfl, -⟩ := exists_of_ending? hpart
          rw [Option.map_some, Option.filter_some, Option.filter_some, List.getLast?_concat,
            getLast?_form]
          split <;> rfl
    · rw [commandAt?_of_ne delimited hc, formAt?_of_ne hc]
      rfl

variable {p : Position} {cs us vs : List Char} {ms : List Match}

theorem Matched.pass {ending : Pattern} (hus : '\\' ∉ us)
    (h : Matched ending (p.afterAll us) vs ms) : Matched ending p (us ++ vs) ms := by
  induction us generalizing p with
  | nil => exact h
  | cons u us ih =>
    rw [List.mem_cons, not_or] at hus
    rw [Position.afterAll_cons] at h
    exact .skip (commandAt?_of_ne ending (Ne.symm hus.1) _) (ih hus.2 h)

/-- No match begins inside of one that ends in a percent sign. -/
theorem Matched.delimited (h : Matched endings p cs ms) :
    Matched delimited p cs (ms.filter fun m => m.text.getLast? != some '%') := by
  induction h with
  | nil => exact .nil
  | skip hnone _ ih =>
    rw [commandAt?_endings] at hnone
    refine .skip ?_ ih
    rw [commandAt?_delimited, hnone]
    rfl
  | @take p k form vs ms hform _ ih =>
    rw [commandAt?_endings] at hform
    have hdelimited := commandAt?_delimited (form ++ vs)
    rw [hform, Option.filter_some] at hdelimited
    rw [List.filter_cons]
    by_cases hlast : (form.getLast? != some '%') = true
    · rw [if_pos hlast] at hdelimited ⊢
      exact .take hdelimited ih
    · rw [if_neg hlast] at hdelimited ⊢
      obtain ⟨rest, part, -, hpart, rfl⟩ := exists_of_formAt? hform
      obtain ⟨us, d, rfl, hd⟩ := exists_of_ending? hpart
      have hbackslash : '\\' ∉ k.name.toList ++ (us ++ [d]) := by
        rw [getLast?_form] at hlast
        rcases hd with rfl | rfl | ⟨rfl, hus⟩
        · exact absurd rfl hlast
        · exact absurd rfl hlast
        · have hblank : '\\' ∉ us := fun hmem => absurd (hus _ hmem) (by decide)
          simp [backslash_notMem_name, hblank]
      rw [Position.afterAll_cons] at ih
      exact .skip hdelimited (.pass hbackslash ih)

theorem matchesIn_delimited (b : Buffer) :
    matchesIn delimited b =
      (matchesIn endings b).filter fun m => m.text.getLast? != some '%' :=
  (matched_matchesFrom endings .start b.text).delimited.eq_matchesFrom.symm

/-- Without its last alternative the pattern leaves out what ends in a percent sign. -/
theorem scanBy_delimited (b : Buffer) :
    scanBy delimited b = (scan b).filter fun o => o.lastSign? b != some '%' := by
  have hlast : ∀ m ∈ matchesIn endings b, m.occurrence.lastSign? b = m.text.getLast? := by
    intro m hm
    obtain ⟨us, vs, hs, hstop, -⟩ :=
      (matched_matchesFrom endings .start b.text).mem (Buffer.Splits.start b) hm
    exact lastSign?_eq hs hstop
  rw [scan_eq_scanBy, scanBy, scanBy, matchesIn_delimited, List.filter_map, List.filter_filter,
    List.filter_filter]
  congr 1
  refine List.filter_congr fun m hm => ?_
  rw [Function.comp_apply, hlast m hm, Bool.and_comm]

example : (scan (.ofText ⟨"main.tex"⟩ "\\section % a".toList)).length = 1 ∧
    scanBy delimited (.ofText ⟨"main.tex"⟩ "\\section % a".toList) = [] := by decide +kernel

end Pattern

/-! ## Entries -/

namespace Occurrence

/-- A list of occurrences has the same headings and inclusions without those that are
rejected anyway. -/
theorem mapM_entry_filter {s : Source} {q : Occurrence → Bool} {os : List Occurrence}
    (h : ∀ o ∈ os, q o = false → o.entry s = .ok .rejected) :
    ((os.filter q).mapM (entry s)).map (List.filter Entry.isAccepted) =
      (os.mapM (entry s)).map (List.filter Entry.isAccepted) := by
  induction os with
  | nil => rfl
  | cons o os ih =>
    rw [List.forall_mem_cons] at h
    have ih := ih h.2
    cases hq : q o with
    | false =>
      rw [List.filter_cons_of_neg (by simp [hq]), ih, List.mapM_cons, h.1 hq]
      cases os.mapM (entry s) <;> rfl
    | true =>
      rw [List.filter_cons_of_pos hq, List.mapM_cons, List.mapM_cons]
      cases o.entry s with
      | error e => rfl
      | ok e =>
        have hcons : ∀ r : Except Error (List Entry),
            (r >>= fun es => pure (e :: es)).map (List.filter Entry.isAccepted) =
              (r.map (List.filter Entry.isAccepted)).map
                fun es => (e :: es).filter Entry.isAccepted := by
          intro r
          cases r with
          | error e => rfl
          | ok es =>
            show Except.ok ((e :: es).filter Entry.isAccepted) = .ok
              ((e :: es.filter Entry.isAccepted).filter Entry.isAccepted)
            rw [List.filter_cons, List.filter_cons, List.filter_filter]
            simp only [Bool.and_self]
        exact (hcons _).trans (ih ▸ (hcons _).symm)

theorem entry_of_percent {s : Source} {o : Occurrence} (ho : o ∈ scan s.buffer)
    (hlast : o.lastSign? s.buffer = some '%') : o.entry s = .ok .rejected := by
  rw [entry, (at_of_mem_scan ho).argument?_of_percent hlast]

end Occurrence

namespace Source

/-- The entries of a source that is scanned with the pattern `ending`. -/
def entriesBy (ending : Pattern) (s : Source) : Except Error (List Entry) :=
  (Pattern.scanBy ending s.buffer).mapM (Occurrence.entry s)

theorem entriesBy_endings (s : Source) : s.entriesBy .endings = s.entries := by
  rw [entriesBy, ← Occurrence.scan_eq_scanBy, entries]

theorem entriesBy_delimited (s : Source) :
    (s.entriesBy .delimited).map (List.filter Entry.isAccepted) =
      s.entries.map (List.filter Entry.isAccepted) := by
  rw [entriesBy, Pattern.scanBy_delimited, entries]
  refine Occurrence.mapM_entry_filter fun o ho hq => ?_
  exact Occurrence.entry_of_percent ho (by simpa using hq)

end Source

/-! ## Builds -/

namespace Build

/-- Expanding a source whose entries are what `read` finds in it. -/
def expandWithBy (read : Source → Except Error (List Entry)) (resolve : Resolver) (follow : Bool)
    (visit : Chain → Buffer → List SourceId → Except Stop Build) (chain : Chain)
    (s : Source) (seen : List SourceId) : Except Stop Build :=
  match read s with
  | .error e => .error (.failed e)
  | .ok es => collect (descend resolve follow visit chain s.id) es seen

/-- Expanding a source and what it includes, where `read` finds the entries. -/
def expandBy (read : Source → Except Error (List Entry)) (resolve : Resolver) (follow : Bool)
    (depth : Nat) (chain : Chain) (s : Source) (seen : List SourceId) : Except Stop Build :=
  match depth with
  | 0 => expandWithBy read resolve follow (fun _ _ _ => .error .tooDeep) chain s seen
  | depth + 1 =>
    expandWithBy read resolve follow
      (fun chain b seen => expandBy read resolve follow depth chain (.ofBuffer b) seen) chain s
      seen

variable {read read' : Source → Except Error (List Entry)} {resolve : Resolver} {follow : Bool}

theorem expandBy_entries (resolve : Resolver) (follow : Bool) (depth : Nat) :
    expandBy Source.entries resolve follow depth = expand resolve follow depth := by
  induction depth with
  | zero => rfl
  | succ depth ih =>
    funext chain s seen
    rw [expandBy, expand, ih]
    rfl

theorem collect_filter (f : Inclusion → List SourceId → Except Stop Build) (es : List Entry)
    (seen : List SourceId) : collect f (es.filter Entry.isAccepted) seen = collect f es seen := by
  induction es generalizing seen with
  | nil => rfl
  | cons e es ih =>
    cases e with
    | rejected => exact ih seen
    | heading h =>
      rw [List.filter_cons_of_pos rfl, collect, collect, ih]
    | inclusion i =>
      rw [List.filter_cons_of_pos rfl, collect, collect]
      simp only [ih]

theorem expandWithBy_accepted (read : Source → Except Error (List Entry))
    (visit : Chain → Buffer → List SourceId → Except Stop Build) :
    expandWithBy (fun s => (read s).map (List.filter Entry.isAccepted)) resolve follow visit =
      expandWithBy read resolve follow visit := by
  funext chain s seen
  rw [expandWithBy, expandWithBy]
  cases read s with
  | error e => rfl
  | ok es => exact collect_filter _ es seen

/-- An expansion depends on the headings and inclusions that are read, not on what is
rejected. -/
theorem expandBy_congr (h : ∀ s, (read s).map (List.filter Entry.isAccepted) =
    (read' s).map (List.filter Entry.isAccepted)) (depth : Nat) :
    expandBy read resolve follow depth = expandBy read' resolve follow depth := by
  have hwith : ∀ visit, expandWithBy read resolve follow visit =
      expandWithBy read' resolve follow visit := by
    intro visit
    rw [← expandWithBy_accepted read, funext h, expandWithBy_accepted]
  induction depth with
  | zero =>
    funext chain s seen
    rw [expandBy, expandBy, hwith]
  | succ depth ih =>
    funext chain s seen
    rw [expandBy, expandBy, ih, hwith]

end Build

namespace Library

theorem mapError_build (lib : Library) (follow : Bool) (root : Source) :
    (lib.build follow root).mapError .failed =
      Build.expand lib.resolve follow lib.bound [] root [root.id] := by
  unfold build
  split
  · next b h => exact h.symm
  · next e h => exact h.symm
  · next h =>
    exact absurd h (Build.expand_ne_tooDeep lib follow _ [] root _ (by simp) (by simp) (by simp))

end Library

/-- Commands that end in a percent sign are rejected, and without the last alternative of
the command pattern every document has the same headings and inclusions and every build is
the same. -/
theorem percent_endings_redundant :
    (∀ s : Source, s.entriesBy .endings = s.entries) ∧
    (∀ (s : Source) (o : Occurrence), o ∈ Occurrence.scan s.buffer →
      o.lastSign? s.buffer = some '%' → o.entry s = .ok .rejected) ∧
    (∀ s : Source, (s.entriesBy .delimited).map (List.filter Entry.isAccepted) =
      s.entries.map (List.filter Entry.isAccepted)) ∧
    (∀ resolve follow depth chain s seen,
      Build.expandBy (Source.entriesBy .delimited) resolve follow depth chain s seen =
        Build.expand resolve follow depth chain s seen) ∧
    ∀ (lib : Library) follow root,
      Build.expandBy (Source.entriesBy .delimited) lib.resolve follow lib.bound [] root
        [root.id] = (lib.build follow root).mapError .failed := by
  have hexpand : ∀ resolve follow depth,
      Build.expandBy (Source.entriesBy .delimited) resolve follow depth =
        Build.expand resolve follow depth := by
    intro resolve follow depth
    rw [← Build.expandBy_entries, Build.expandBy_congr Source.entriesBy_delimited]
  refine ⟨Source.entriesBy_endings, fun s o => Occurrence.entry_of_percent,
    Source.entriesBy_delimited, ?_, ?_⟩
  · intro resolve follow depth chain s seen
    rw [hexpand]
  · intro lib follow root
    rw [hexpand, Library.mapError_build]

end Sectioning
