/-
Reading a printed family gives back what was meant.

The entries of a printed document are the items it was printed from
(`entries_buffer`), one line and one command at a time.  What a document includes
is found on the shelf (`resolve_name`), and it is not on the chain because the
family has no cycles, so nothing is cut.
-/
import Sectioning.Proofs.Expansion
import Sectioning.Proofs.LineEnds
import Sectioning.Proofs.Printed
import Sectioning.Proofs.Shelf

namespace Sectioning

namespace Manuscript
/-! ## One document -/

namespace Stem

variable (s : Stem)

theorem toNat_of_mem_fileName {c : Char} (h : c ∈ s.fileName) :
    c.toNat = 46 ∨ 48 ≤ c.toNat ∧ c.toNat ≤ 57 ∨ 65 ≤ c.toNat ∧ c.toNat ≤ 90 ∨
      97 ≤ c.toNat ∧ c.toNat ≤ 122 := by
  rw [fileName, List.mem_append] at h
  rcases h with h | h
  · exact Or.inr (toNat_of_isAlphanum (s.alphanumeric c h))
  · simp only [List.mem_cons, List.not_mem_nil, or_false] at h
    rcases h with rfl | rfl | rfl | rfl <;> decide

theorem isBlank_of_mem_fileName {c : Char} (h : c ∈ s.fileName) : isBlank c = false := by
  have hc := s.toNat_of_mem_fileName h
  simp only [isBlank, Bool.or_eq_false_iff, Bool.and_eq_false_iff, decide_eq_false_iff_not,
    beq_eq_false_iff_ne]
  omega

theorem notMem_fileName {c : Char} (h : c.toNat < 46 ∨ c.toNat = 47 ∨ 91 ≤ c.toNat ∧ c.toNat ≤ 96 ∨
    123 ≤ c.toNat) : c ∉ s.fileName := by
  intro hc
  have := s.toNat_of_mem_fileName hc
  omega

/-- The name of a document as the argument of an inclusion. -/
def title : TitleText where
  chars := s.fileName
  ne_nil := List.append_ne_nil_of_right_ne_nil _ (by decide)
  collapsed := Text.collapse_of_no_blank fun _ hc => s.isBlank_of_mem_fileName hc
  no_backslash := s.notMem_fileName (by decide)
  balanced := isBalanced_of_notMem (s.notMem_fileName (by decide)) (s.notMem_fileName (by decide))

end Stem

namespace Item

variable {count : Nat}

def keyword : Item count → Keyword
  | heading k _ _ _ _ => k
  | inclusion k _ _ => k

def style : Item count → Style
  | heading _ _ _ style _ => style
  | inclusion _ _ _ => .plain

end Item

namespace Family

variable (f : Family)

/-- The argument that an item is printed with. -/
def argument : Item f.count → TitleText
  | .heading _ _ _ _ title => title
  | .inclusion _ _ target => (f.stem target).title

theorem line_eq (item : Item f.count) :
    f.line item = command item.keyword item.style (f.argument item).chars := by
  cases item <;> rfl

/-- The entry of an item on line `row` of a document. -/
def entry (source : SourceId) (item : Item f.count) (row : Nat) : Entry :=
  match item with
  | .heading _ level _ _ title =>
    .heading ⟨String.ofList title.chars, level, ⟨row, 0⟩, source⟩
  | .inclusion _ _ target => .inclusion ⟨f.name target, ⟨row, 0⟩⟩

theorem entryOf_occurrence (source : SourceId) (item : Item f.count) (row : Nat) :
    (occurrence item.keyword item.style ⟨row, 0⟩).entryOf source (f.argument item).chars =
      f.entry source item row := by
  have hne : (f.argument item).chars.isEmpty = false := by
    rw [List.isEmpty_eq_false_iff]
    exact (f.argument item).ne_nil
  rw [Occurrence.entryOf, hne, if_neg Bool.false_ne_true]
  cases item with
  | heading k level hlevel style title =>
    have hkeyword : (occurrence k style ⟨row, 0⟩).keyword.level? = some level := hlevel
    simp only [Item.keyword, Item.style, hkeyword]
    rfl
  | inclusion k hk target =>
    have hkeyword : (occurrence k .plain ⟨row, 0⟩).keyword.level? = none := hk
    simp only [Item.keyword, Item.style, hkeyword]
    rfl

/-- Scanning and reading printed lines gives back the items. -/
theorem map_reading_scanFrom {b : Buffer} (items : List (Item f.count)) :
    ∀ {r : Nat} {us : List Char},
      b.Splits ⟨r, 0⟩ us (items.flatMap fun item => f.line item ++ ['\n']) →
      (Occurrence.scanFrom 0 ⟨r, 0⟩ (items.flatMap fun item => f.line item ++ ['\n'])).map
        (Occurrence.reading b) = (items.zipIdx r).map fun x => f.entry b.id x.1 x.2 := by
  induction items with
  | nil =>
    intro r us _
    rfl
  | cons item items ih =>
    intro r us h
    rw [List.flatMap_cons] at h ⊢
    have hnext := h.steps
    rw [line_eq, afterAll_command] at hnext
    rw [line_eq, List.append_assoc, List.singleton_append] at h
    rw [line_eq, List.append_assoc, List.singleton_append, scanFrom_command, List.map_cons,
      reading_command _ _ _ h, entryOf_occurrence, ih hnext]
    rfl

theorem unifyBreaks_flatMap (items : List (Item f.count)) :
    Text.unifyBreaks (items.flatMap fun item => f.line item ++ ['\n']) =
      items.flatMap fun item => f.line item ++ ['\n'] := by
  induction items with
  | nil => rfl
  | cons item items ih =>
    have hline : ∃ us, '\n' ∉ us ∧ f.line item = us ++ ['}'] := by
      have hbreak := no_break_command item.keyword item.style (f.argument item)
      rw [line_eq]
      rw [command_eq, ← List.append_assoc, ← List.append_assoc] at hbreak ⊢
      exact ⟨_, fun h => hbreak (List.mem_append_left _ h), rfl⟩
    obtain ⟨us, hus, hline⟩ := hline
    rw [List.flatMap_cons, hline, List.append_assoc, List.append_assoc]
    rw [List.singleton_append, List.singleton_append, Text.unifyBreaks_line hus, ih]

/-- The entries of a printed document are its items. -/
theorem entries_buffer (i : Fin f.count) :
    (f.buffer i).entries = (f.items i).zipIdx.map fun x => f.entry ⟨f.name i⟩ x.1 x.2 := by
  have htext : (f.buffer i).text = f.print i := by
    show Text.unifyBreaks (String.ofList (f.print i)).toList = _
    rw [String.toList_ofList]
    exact f.unifyBreaks_flatMap (f.items i)
  have hstart := Buffer.Splits.start (f.buffer i)
  rw [Buffer.entries, Occurrence.scan]
  rw [htext] at hstart ⊢
  exact f.map_reading_scanFrom (f.items i) hstart

/-! ## The family -/

theorem name_injective : Function.Injective f.name := by
  intro i j h
  have hfile : (f.stem i).fileName = (f.stem j).fileName := String.ofList_injective h
  have hchars : (f.stem i).chars = (f.stem j).chars := List.append_cancel_right hfile
  refine f.stem_injective ?_
  cases hi : f.stem i
  cases hj : f.stem j
  rw [hi, hj] at hchars
  cases hchars
  rfl

theorem hasExtension_name (i : Fin f.count) : Path.hasExtension (f.name i) = true := by
  have htoList : (f.name i).toList = (f.stem i).fileName := String.toList_ofList
  have hslash : '/' ∉ (f.stem i).fileName := (f.stem i).notMem_fileName (by decide)
  obtain ⟨c, chars, hchars⟩ := List.exists_cons_of_ne_nil (f.stem i).ne_nil
  have hfile : (f.stem i).fileName = c :: (chars ++ ['.', 't', 'e', 'x']) := by
    rw [Stem.fileName, hchars]
    rfl
  have hne : ∀ s : String, s.toList.length < 4 → f.name i ≠ s := by
    intro s hs heq
    rw [← heq, htoList, hfile, List.length_cons, List.length_append] at hs
    simp only [List.length_cons, List.length_nil] at hs
    omega
  have hsegments : Path.segments (f.name i) = [f.name i] := by
    rw [Path.segments, htoList, Text.split_of_notMem hslash]
    rfl
  have habsolute : Path.isAbsolute (f.name i) = false := by
    rw [hfile, List.mem_cons, not_or] at hslash
    rw [Path.isAbsolute, htoList, hfile, List.head?_cons, beq_eq_false_iff_ne]
    exact fun h => hslash.1 (Option.some.inj h).symm
  have hcomponents : Path.components (f.name i) = [.name (f.name i)] := by
    have hhead : ¬ (some (f.name i) = some ".") := fun h => hne "." (by decide) (Option.some.inj h)
    rw [Path.components, hsegments, habsolute]
    simp only [List.head?_cons, if_neg hhead, Bool.false_eq_true, if_false,
      List.filterMap_cons, Path.Component.ofSegment?, List.filterMap_nil,
      if_neg (not_or.2 ⟨hne "" (by decide), hne "." (by decide)⟩), if_neg (hne ".." (by decide))]
  rw [Path.hasExtension, hcomponents]
  show (f.name i).toList.tail.contains '.' = true
  rw [htoList, hfile]
  simp

theorem resolve_name (j : Fin f.count) (asker : SourceId) :
    f.shelf.resolve (f.name j) asker = some (f.buffer j) := by
  have htrim : trimmed (f.name j) = f.name j := by
    rw [trimmed, name, String.toList_ofList,
      Text.trim_of_no_blank fun c hc => (f.stem j).isBlank_of_mem_fileName hc]
  have hnodup : ((List.ofFn fun i => (f.name i, String.ofList (f.print i))).map (·.1)).Nodup := by
    rw [List.map_ofFn]
    exact List.nodup_ofFn.2 f.name_injective
  have htext : f.shelf.text? (f.name j) = some (String.ofList (f.print j)) :=
    Shelf.text?_ofList hnodup (List.mem_ofFn.2 ⟨j, rfl⟩)
  rw [Shelf.resolve, htrim, spellings, if_pos (f.hasExtension_name j), List.findSome?_cons, htext]
  rfl

/-- An inclusion leads into the printed document that it names, because no
document on the chain is included again. -/
theorem descend_name {visit : Chain → Buffer → List SourceId → Except Build.Stop Build}
    {chain : Chain} {i j : Fin f.count} (hij : f.Includes i j)
    (hchain : ∀ id ∈ chain, ∃ a, id = ⟨f.name a⟩ ∧ Relation.TransGen f.Includes a i)
    (place : Position) (seen : List SourceId) :
    Build.descend f.shelf.resolve true visit chain ⟨f.name i⟩ ⟨f.name j, place⟩ seen =
      visit (⟨f.name i⟩ :: chain) (f.buffer j) (SourceId.note seen ⟨f.name j⟩) := by
  have hnew : ¬ Chain.holds (⟨f.name i⟩ :: chain) ⟨f.name j⟩ = true := by
    intro hholds
    have hmem : (⟨f.name j⟩ : SourceId) ∈ ⟨f.name i⟩ :: chain := by
      simpa [Chain.holds] using hholds
    rw [List.mem_cons, SourceId.mk.injEq] at hmem
    rcases hmem with hji | hmem
    · rw [f.name_injective hji] at hij
      exact f.acyclic i (Relation.TransGen.single hij)
    · obtain ⟨a, ha, hai⟩ := hchain _ hmem
      rw [SourceId.mk.injEq] at ha
      rw [← f.name_injective ha] at hai
      exact f.acyclic j (hai.tail hij)
  rw [Build.descend, if_pos rfl, resolve_name]
  exact if_neg hnew

/-- Putting the entries of a document together gives what its items contribute. -/
theorem headings_collect {descend : Inclusion → List SourceId → Except Build.Stop Build}
    {i : Fin f.count} {items : List (Item f.count × Nat)}
    (h : ∀ k hk j row, (Item.inclusion k hk j, row) ∈ items → ∀ seen b,
      descend ⟨f.name j, ⟨row, 0⟩⟩ seen = .ok b → b.headings = f.flatten j) :
    ∀ {seen : List SourceId} {b : Build},
      Build.collect descend (items.map fun x => f.entry ⟨f.name i⟩ x.1 x.2) seen = .ok b →
      b.headings = items.flatMap fun x => f.contribution i x.1 x.2 := by
  induction items with
  | nil =>
    intro seen b hb
    cases hb
    rfl
  | cons x items ih =>
    have hitems := @ih fun k hk j row hx => h k hk j row (List.mem_cons_of_mem x hx)
    intro seen b hb
    obtain ⟨item, row⟩ := x
    cases item with
    | heading k level hlevel style title =>
      rw [List.map_cons, entry, Build.collect] at hb
      split at hb
      · cases hb
      · next rest hrest =>
        cases hb
        rw [List.flatMap_cons, ← hitems hrest]
        rfl
    | inclusion k hk j =>
      rw [List.map_cons, entry, Build.collect] at hb
      split at hb
      · cases hb
      · next inner hinner =>
        split at hb
        · cases hb
        · next rest hrest =>
          cases hb
          rw [List.flatMap_cons, ← hitems hrest, contribution,
            ← h k hk j row List.mem_cons_self _ _ hinner]

theorem headings_expand (depth : Nat) : ∀ {chain : Chain} {i : Fin f.count} {seen : List SourceId}
    {b : Build}, (∀ id ∈ chain, ∃ a, id = ⟨f.name a⟩ ∧ Relation.TransGen f.Includes a i) →
      Build.expand f.shelf.resolve true depth chain (.ofBuffer (f.buffer i)) seen = .ok b →
      b.headings = f.flatten i := by
  induction depth with
  | zero =>
    intro chain i seen b hchain hb
    rw [Build.expand, @Build.expandWith_ofBuffer _ _ _ ⟨chain, f.buffer i⟩, entries_buffer] at hb
    rw [flatten_eq]
    refine f.headings_collect (fun k hk j row hx seen b hb => ?_) hb
    have hij : f.Includes i j := ⟨k, hk, List.fst_mem_of_mem_zipIdx hx⟩
    have hvisit := hb.symm.trans (f.descend_name hij hchain _ _)
    cases hvisit
  | succ depth ih =>
    intro chain i seen b hchain hb
    rw [Build.expand, @Build.expandWith_ofBuffer _ _ _ ⟨chain, f.buffer i⟩, entries_buffer] at hb
    rw [flatten_eq]
    refine f.headings_collect (fun k hk j row hx seen b hb => ?_) hb
    have hij : f.Includes i j := ⟨k, hk, List.fst_mem_of_mem_zipIdx hx⟩
    have hvisit := (f.descend_name hij hchain _ _).symm.trans hb
    refine ih (fun id hid => ?_) hvisit
    rw [List.mem_cons] at hid
    rcases hid with rfl | hid
    · exact ⟨i, rfl, Relation.TransGen.single hij⟩
    · obtain ⟨a, rfl, hai⟩ := hchain id hid
      exact ⟨a, rfl, hai.tail hij⟩

/-- Building a printed document gives the headings that were meant, each with its
title, its level, the start of its line and its document. -/
theorem build_print (root : Fin f.count) :
    ∃ b, f.shelf.library.build true (.ofBuffer (f.buffer root)) = .ok b ∧
      b.headings = f.flatten root := by
  obtain ⟨b, hb⟩ := Build.exists_build_eq_ok f.shelf.library true (f.buffer root)
  refine ⟨b, hb, ?_⟩
  have hexpand := Library.build_eq_ok_iff.1 hb
  rw [f.shelf.resolve_library] at hexpand
  exact f.headings_expand _ (by simp) hexpand

/-! ## A leaflet -/

/-- A title with a percent sign, a loose bracket and a group. -/
def shareTitle : TitleText where
  chars := "50% of [a \x7bb\x7d".toList
  ne_nil := by decide
  collapsed := by decide
  no_backslash := by decide
  balanced := by decide

/-- A short title with brackets. -/
def shareShort : ShortText where
  chars := "share [a]".toList
  no_backslash := by decide
  no_percent := by decide
  no_opener := by decide
  no_closer := by decide
  no_break := by decide
  balanced := by decide

def leafletStem : Fin 2 → Stem
  | 0 => ⟨"main".toList, by decide, List.all_eq_true.1 (by decide)⟩
  | 1 => ⟨"part2".toList, by decide, List.all_eq_true.1 (by decide)⟩

def leafletItems : Fin 2 → List (Item 2)
  | 0 => [.heading .chapter 2 rfl (.short shareShort) shareTitle, .inclusion .input rfl 1,
      .heading .section 3 rfl .starred shareTitle, .inclusion .include rfl 1]
  | 1 => [.heading .subsection 4 rfl .plain shareTitle]

theorem lt_of_mem_leafletItems {i j : Fin 2} {k : Keyword} {hk : k.level? = none}
    (h : Item.inclusion k hk j ∈ leafletItems i) : i < j := by
  match i with
  | 0 =>
    simp only [leafletItems, List.mem_cons, reduceCtorEq, List.not_mem_nil, or_false, false_or] at h
    rcases h with ⟨-, rfl⟩ | ⟨-, rfl⟩ <;> decide
  | 1 => simp [leafletItems] at h

/-- Two documents, of which the first includes the second twice. -/
def leaflet : Family where
  count := 2
  stem := leafletStem
  stem_injective i j h := by
    match i, j, h with
    | 0, 0, _ => rfl
    | 1, 1, _ => rfl
    | 0, 1, h => exact absurd (congrArg Stem.chars h) (by decide)
    | 1, 0, h => exact absurd (congrArg Stem.chars h) (by decide)
  items := leafletItems
  acyclic i h := by
    have hlt : ∀ {i j}, Relation.TransGen
        (fun i j => ∃ k hk, Item.inclusion k hk j ∈ leafletItems i) i j → i < j := by
      intro i j h
      induction h with
      | single h =>
        obtain ⟨k, hk, h⟩ := h
        exact lt_of_mem_leafletItems h
      | tail _ h ih =>
        obtain ⟨k, hk, h⟩ := h
        exact ih.trans (lt_of_mem_leafletItems h)
    exact absurd (hlt h) (lt_irrefl i)

def leafletMain : Fin leaflet.count := (0 : Fin 2)

def leafletPart : Fin leaflet.count := (1 : Fin 2)

/-- The part is read twice, and its title is shown as it was meant. -/
theorem build_print_leaflet :
    String.ofList (leaflet.print leafletMain) =
      "\\chapter[share [a]]\x7b50\\% of [a \x7bb\x7d\x7d\n\\input\x7bpart2.tex\x7d\n" ++
        "\\section*\x7b50\\% of [a \x7bb\x7d\x7d\n\\include\x7bpart2.tex\x7d\n" ∧
    ∃ b, leaflet.shelf.library.build true (.ofBuffer (leaflet.buffer leafletMain)) = .ok b ∧
      b.headings.map (fun h => (h.title, h.level, h.anchor, h.source.name)) =
        [("50% of [a \x7bb\x7d", 2, ⟨0, 0⟩, "main.tex"),
          ("50% of [a \x7bb\x7d", 4, ⟨0, 0⟩, "part2.tex"),
          ("50% of [a \x7bb\x7d", 3, ⟨2, 0⟩, "main.tex"),
          ("50% of [a \x7bb\x7d", 4, ⟨0, 0⟩, "part2.tex")] := by
  have hpart : leaflet.flatten leafletPart =
      [⟨String.ofList shareTitle.chars, 4, ⟨0, 0⟩, ⟨leaflet.name leafletPart⟩⟩] := by
    rw [flatten_eq]
    rfl
  have hmain : leaflet.flatten leafletMain =
      ⟨String.ofList shareTitle.chars, 2, ⟨0, 0⟩, ⟨leaflet.name leafletMain⟩⟩ ::
        (leaflet.flatten leafletPart ++
          ⟨String.ofList shareTitle.chars, 3, ⟨2, 0⟩, ⟨leaflet.name leafletMain⟩⟩ ::
            (leaflet.flatten leafletPart ++ [])) := by
    rw [flatten_eq]
    rfl
  obtain ⟨b, hb, hheadings⟩ := leaflet.build_print leafletMain
  refine ⟨by decide +kernel, b, hb, ?_⟩
  rw [hheadings, hmain, hpart]
  decide +kernel

end Family

end Manuscript
end Sectioning
