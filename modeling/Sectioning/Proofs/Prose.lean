/-
Prose before a text.

Lines without backslashes that are put before a text move what is found in it down by their
number and change nothing else.  A reader never looks at the number of its row, so every
step from a place further down is the step from the place itself, further down
(`Cursor.advance?_down`, `Cursor.nextLine?_down`, and from these `Cursor.argument?_down`).
The prose has to end a line.  Then no line of the text gets longer
(`Buffer.Prefaced.exists_lines`), and a line end of two characters cannot lie across the seam
(`Text.unifyBreaks_append_of_ne`).

An inclusion is resolved without regard to its place, and what it leads to never carries the
identity of the root.  So in a build the headings of the root move, and only these
(`Build.collect_down`).
-/
import Sectioning.Proofs.Gathering
import Sectioning.Proofs.LineEnds
import Sectioning.Proofs.Parity

namespace Sectioning

/-! ## Places further down -/

namespace Position

/-- The place `n` rows further down. -/
def down (n : Nat) (p : Position) : Position :=
  ⟨p.row + n, p.column⟩

theorem down_le_down {n : Nat} {p q : Position} : p.down n ≤ q.down n ↔ p ≤ q := by
  rw [le_iff, le_iff]
  simp only [down]
  omega

theorem after_down (n : Nat) (p : Position) (c : Char) :
    (p.down n).after c = (p.after c).down n := by
  by_cases hc : c = '\n'
  · subst hc
    rw [after_newline, after_newline, down, down, Nat.add_right_comm]
  · rw [after_of_ne _ hc, after_of_ne _ hc]
    rfl

theorem afterAll_down (n : Nat) (p : Position) (cs : List Char) :
    (p.down n).afterAll cs = (p.afterAll cs).down n := by
  induction cs generalizing p with
  | nil => rfl
  | cons c cs ih => rw [afterAll_cons, afterAll_cons, after_down, ih]

end Position

namespace Range

def down (n : Nat) (r : Range) : Range :=
  ⟨r.start.down n, r.stop.down n⟩

theorem between_down (n : Nat) (p q : Position) :
    between (p.down n) (q.down n) = (between p q).down n := by
  unfold between
  by_cases h : p ≤ q
  · rw [if_pos h, if_pos (Position.down_le_down.2 h)]
    rfl
  · rw [if_neg h, if_neg fun h' => h (Position.down_le_down.1 h')]
    rfl

end Range

def Occurrence.down (n : Nat) (o : Occurrence) : Occurrence :=
  { o with range := o.range.down n }

def Heading.down (n : Nat) (h : Heading) : Heading :=
  { h with anchor := h.anchor.down n }

def Inclusion.down (n : Nat) (i : Inclusion) : Inclusion :=
  { i with anchor := i.anchor.down n }

def Entry.down (n : Nat) : Entry → Entry
  | heading h => heading (h.down n)
  | inclusion i => inclusion (i.down n)
  | rejected => rejected

/-! ## Readers further down -/

namespace Cursor

def down (n : Nat) (c : Cursor) : Cursor :=
  { c with position := c.position.down n }

variable (n : Nat) (c : Cursor)

theorem bind_map_down {α : Type} {x : Option Cursor} {f : Cursor → Option α} {move : α → α}
    (h : ∀ d, x = some d → f (d.down n) = (f d).map move) :
    (x.map (down n)).bind f = (x.bind f).map move := by
  cases x with
  | none => rfl
  | some d => exact h d rfl

theorem firstFilled?_down (row : Nat) (ls : List (List Char)) :
    firstFilled? (row + n) ls = (firstFilled? row ls).map (down n) := by
  fun_induction firstFilled? row ls with
  | case1 => rfl
  | case2 row ls ih =>
    rw [firstFilled?, Nat.add_right_comm, ih]
  | case3 row ch cs ls hblank ih =>
    rw [firstFilled?, if_pos hblank, Nat.add_right_comm, ih]
  | case4 row ch cs ls hblank =>
    rw [firstFilled?, if_neg hblank]
    rfl

theorem nextLine?_down : (c.down n).nextLine? = c.nextLine?.map (down n) := by
  rw [nextLine?, nextLine?, ← firstFilled?_down, Nat.add_right_comm]
  rfl

theorem advance?_down : (c.down n).advance? = c.advance?.map (down n) := by
  cases hr : c.rest with
  | nil =>
    have hr' : (c.down n).rest = [] := hr
    rw [advance?, advance?, hr, hr']
    exact nextLine?_down n c
  | cons o rest =>
    have hr' : (c.down n).rest = o :: rest := hr
    rw [advance?, advance?, hr, hr']
    rfl

theorem advanceBy?_down (k : Nat) : advanceBy? k (c.down n) = (advanceBy? k c).map (down n) := by
  induction k generalizing c with
  | zero => rfl
  | succ k ih =>
    rw [advanceBy?, advanceBy?, advance?_down]
    exact bind_map_down n fun d _ => ih d

theorem skipBlank?_down : (c.down n).skipBlank? = c.skipBlank?.map (down n) := by
  induction hm : c.remaining using Nat.strongRecOn generalizing c with
  | ind m ih =>
    cases ho : c.octet with
    | later =>
      have ho' : (c.down n).octet = .later := ho
      rw [skipBlank?_later ho, skipBlank?_later ho']
      rfl
    | first ch =>
      have ho' : (c.down n).octet = .first ch := ho
      rw [skipBlank?_first ho, skipBlank?_first ho']
      split
      · rw [nextLine?_down]
        refine bind_map_down n fun d hd => ih d.remaining ?_ d rfl
        exact hm ▸ nextLine?_remaining hd
      · split
        · rw [advanceBy?_down]
          refine bind_map_down n fun d hd => ih d.remaining ?_ d rfl
          have hlt := advanceBy?_remaining hd
          have hpos := ch.utf8Size_pos
          omega
        · rfl

theorem onward?_down : (c.down n).onward? = c.onward?.map (down n) := by
  have ho : (c.down n).octet = c.octet := rfl
  unfold onward?
  rw [ho, advance?_down, nextLine?_down]
  split
  · exact bind_map_down n fun d _ => advance?_down n d
  · split
    · rfl
    · rfl

theorem matchClose?_down (k : Delimiter) (depth : Nat) :
    matchClose? k depth (c.down n) = (matchClose? k depth c).map (down n) := by
  induction hm : c.remaining using Nat.strongRecOn generalizing c depth with
  | ind m ih =>
    have ho : (c.down n).octet = c.octet := rfl
    rw [matchClose?_eq, matchClose?_eq k depth c, ho, onward?_down]
    split
    · rfl
    · refine bind_map_down n fun d hd => ih d.remaining ?_ d _ rfl
      exact hm ▸ onward?_remaining hd

theorem passShortTitle?_down : (c.down n).passShortTitle? = c.passShortTitle?.map (down n) := by
  have ho : (c.down n).octet = c.octet := rfl
  simp only [passShortTitle?, skipShortTitle?_eq]
  rw [ho, advance?_down]
  split
  · refine bind_map_down n fun start _ => ?_
    rw [matchClose?_down]
    refine bind_map_down n fun close _ => ?_
    rw [advance?_down]
    exact bind_map_down n fun d _ => skipBlank?_down n d
  · rfl

theorem bracedRange?_down : (c.down n).bracedRange? = c.bracedRange?.map (Range.down n) := by
  have ho : (c.down n).octet = c.octet := rfl
  rw [bracedRange?_eq, bracedRange?_eq]
  rw [ho, advance?_down]
  split
  · refine bind_map_down n fun start _ => ?_
    rw [matchClose?_down]
    cases matchClose? .brace 0 start with
    | none => rfl
    | some close => exact congrArg some (Range.between_down n start.position close.position)
  · rfl

theorem argument?_down : (c.down n).argument? = c.argument?.map (Range.down n) := by
  rw [argument?, argument?, skipBlank?_down]
  refine bind_map_down n fun d _ => ?_
  rw [passShortTitle?_down]
  exact bind_map_down n fun e _ => bracedRange?_down n e

end Cursor

/-! ## Forms further down -/

namespace Occurrence

theorem scanFrom_down (n covered : Nat) (p : Position) (cs : List Char) :
    scanFrom covered (p.down n) cs = (scanFrom covered p cs).map (down n) := by
  fun_induction scanFrom covered p cs with
  | case1 => rfl
  | case2 covered p c cs ih => rw [scanFrom, Position.after_down, ih]
  | case3 p c cs hform ih => rw [scanFrom_of_formAt?_eq_none hform, Position.after_down, ih]
  | case4 p c cs k form hform later hreported ih =>
    rw [scanFrom, hform]
    simp only [hreported, if_true, Position.after_down, ih, List.map_cons]
    rw [Position.afterAll_down]
    rfl
  | case5 p c cs k form hform later hreported ih =>
    rw [scanFrom, hform]
    simp only [hreported, Position.after_down, ih]
    rfl

theorem entryOf_down (n : Nat) (o : Occurrence) (source : SourceId) (title : List Char) :
    (o.down n).entryOf source title = (o.entryOf source title).down n := by
  unfold entryOf
  split
  · rfl
  · have hkeyword : (o.down n).keyword = o.keyword := rfl
    rw [hkeyword]
    cases o.keyword.level? with
    | none => rfl
    | some level => rfl

end Occurrence

/-! ## Line ends at the seam -/

namespace Text

/-- The line ends of two texts can be made uniform apart, unless the first one ends in the
first half of a line end. -/
theorem unifyBreaks_append_of_ne {us : List Char} (h : us.getLast? ≠ some '\r') (vs : List Char) :
    unifyBreaks (us ++ vs) = unifyBreaks us ++ unifyBreaks vs := by
  fun_induction unifyBreaks us with
  | case1 => rfl
  | case2 us ih =>
    rw [List.cons_append, List.cons_append, unifyBreaks, List.cons_append, ih]
    intro hlast
    simp [List.getLast?_cons, hlast] at h
  | case3 u us hne ih =>
    rw [List.cons_append, List.cons_append]
    cases us with
    | nil =>
      -- the seam is here
      have hu : u ≠ '\r' := by simpa using h
      rw [List.nil_append, unifyBreaks.eq_3 u vs fun _ hu' _ => hu hu']
      rfl
    | cons w us =>
      rw [unifyBreaks.eq_3, ih]
      · simpa [List.getLast?_cons] using h
      · intro ds hu hds
        obtain ⟨rfl, -⟩ := List.cons.inj hds
        exact hne us hu rfl

theorem getLast?_unifyBreaks (cs : List Char) : (unifyBreaks cs).getLast? = cs.getLast? := by
  fun_induction unifyBreaks cs with
  | case1 => rfl
  | case2 cs ih => simp [List.getLast?_cons, ih]
  | case3 c cs hne ih => rw [List.getLast?_cons, List.getLast?_cons, ih]

theorem count_unifyBreaks (cs : List Char) : (unifyBreaks cs).count '\n' = cs.count '\n' := by
  fun_induction unifyBreaks cs with
  | case1 => rfl
  | case2 cs ih => simp [ih]
  | case3 c cs hne ih => rw [List.count_cons, List.count_cons, ih]

end Text

/-! ## Buffers with prose before the text -/

namespace Buffer

/-- The text of `b'` is the text of `b` with `prose` before it, which is `n` whole lines. -/
structure Prefaced (prose : List Char) (n : Nat) (b b' : Buffer) : Prop where
  id_eq : b'.id = b.id
  text_eq : b'.text = prose ++ b.text
  ends : Text.lastLine prose = []
  count_eq : prose.count '\n' = n

theorem prefaced_ofText {prose : List Char} (h : prose.getLast? = some '\n') (id : SourceId)
    (text : List Char) :
    Prefaced (Text.unifyBreaks prose) (prose.count '\n') (.ofText id text)
      (.ofText id (prose ++ text)) := by
  refine ⟨rfl, Text.unifyBreaks_append_of_ne (by simp [h]) text, ?_, Text.count_unifyBreaks prose⟩
  rw [← Text.getLast?_unifyBreaks] at h
  obtain ⟨us, hus⟩ := List.getLast?_eq_some_iff.1 h
  rw [hus, Text.lastLine_append_newline]

namespace Prefaced

variable {prose : List Char} {n : Nat} {b b' : Buffer}

/-- The lines of the text are the same, with those of the prose above. -/
theorem exists_lines (h : Prefaced prose n b b') :
    ∃ above : List (List Char), above.length = n ∧ b'.lines = above ++ b.lines := by
  obtain ⟨above, hlength, hlines⟩ := Text.exists_lines_append prose
  obtain ⟨l, ls, hl⟩ := Text.exists_lines_eq_cons b.text
  refine ⟨above, hlength.trans h.count_eq, ?_⟩
  rw [b'.lines_eq, h.text_eq, hlines b.text l ls hl, h.ends, b.lines_eq, hl]
  rfl

theorem drop_lines (h : Prefaced prose n b b') (row : Nat) :
    b'.lines.drop (row + n) = b.lines.drop row := by
  obtain ⟨above, hlength, hlines⟩ := h.exists_lines
  rw [hlines, ← hlength, Nat.add_comm, List.drop_length_add_append]

theorem line?_down (h : Prefaced prose n b b') (row : Nat) :
    b'.line? (row + n) = b.line? row := by
  rw [line?, line?, ← List.head?_drop, ← List.head?_drop, h.drop_lines]

theorem cursorAt?_down (h : Prefaced prose n b b') (p : Position) :
    b'.cursorAt? (p.down n) = (b.cursorAt? p).map (Cursor.down n) := by
  have hrow : b'.lines.drop (p.down n).row = b.lines.drop p.row := h.drop_lines p.row
  have hcolumn : (p.down n).column = p.column := rfl
  unfold cursorAt?
  rw [hrow, hcolumn]
  cases b.lines.drop p.row with
  | nil => rfl
  | cons l below =>
    cases ho : (Text.octets l).drop p.column with
    | nil =>
      simp only [ho]
      rfl
    | cons o rest =>
      simp only [ho]
      rfl

theorem afterAll_prose (h : Prefaced prose n b b') :
    Position.start.afterAll prose = Position.start.down n := by
  have hsplits : b'.Splits (Position.start.afterAll prose) prose b.text := ⟨h.text_eq, rfl⟩
  have hcolumn := hsplits.column_eq
  have hrow := Position.row_afterAll prose .start
  rw [h.ends] at hcolumn
  rw [h.count_eq] at hrow
  show Position.mk (Position.start.afterAll prose).row (Position.start.afterAll prose).column = _
  rw [hcolumn, hrow]
  rfl

theorem splits_down (h : Prefaced prose n b b') {p : Position} {us vs : List Char}
    (hs : b.Splits p us vs) : b'.Splits (p.down n) (prose ++ us) vs := by
  refine ⟨by rw [h.text_eq, hs.text_eq, List.append_assoc], ?_⟩
  rw [Position.afterAll_append, h.afterAll_prose, Position.afterAll_down, ← hs.place_eq]

end Prefaced
end Buffer

namespace Occurrence

variable {prose : List Char} {n : Nat} {b b' : Buffer}

theorem isGenuine_down (h : b.Prefaced prose n b') (o : Occurrence) :
    (o.down n).isGenuine b' = o.isGenuine b := by
  have hline : b'.line? (o.down n).range.start.row = b.line? o.range.start.row :=
    h.line?_down o.range.start.row
  rw [isGenuine, isGenuine, hline]
  rfl

theorem argument?_down (h : b.Prefaced prose n b') (o : Occurrence) :
    (o.down n).argument? b' = (o.argument? b).map (Range.down n) := by
  have hdelimiter : (o.down n).delimiter = o.delimiter.down n := rfl
  rw [argument?, argument?, isGenuine_down h, hdelimiter, h.cursorAt?_down]
  split
  · exact Cursor.bind_map_down _ fun c _ => Cursor.argument?_down _ c
  · rfl

theorem reading_down (h : b.Prefaced prose n b') (o : Occurrence) :
    (o.down n).reading b' = (o.reading b).down n := by
  cases hr : o.argument? b with
  | none =>
    rw [reading, reading, argument?_down h, hr]
    rfl
  | some r =>
    obtain ⟨us, ws, vs, hstart, hstop⟩ := exists_splits_of_argument? hr
    have hexcerpt : b.excerpt? r = some ws := hstart.excerpt? hstop
    have hstop' := h.splits_down hstop
    rw [← List.append_assoc] at hstop'
    have hexcerpt' : b'.excerpt? (r.down n) = some ws :=
      (h.splits_down hstart).excerpt? hstop'
    rw [reading, reading, argument?_down h, hr, Option.map_some]
    simp only [hexcerpt, hexcerpt', Option.getD_some, h.id_eq, entryOf_down]

theorem scan_down (h : b.Prefaced prose n b') (hplain : '\\' ∉ prose) :
    scan b' = (scan b).map (down n) := by
  rw [scan, scan, h.text_eq, scanFrom_of_notMem hplain, h.afterAll_prose, scanFrom_down]

end Occurrence

theorem Buffer.entries_down {prose : List Char} {n : Nat} {b b' : Buffer}
    (h : b.Prefaced prose n b') (hplain : '\\' ∉ prose) : b'.entries = b.entries.map (Entry.down n) := by
  rw [entries, entries, Occurrence.scan_down h hplain, List.map_map, List.map_map]
  refine List.map_congr_left fun o _ => ?_
  exact Occurrence.reading_down h o

/-! ## Builds -/

namespace Build

/-- The build with the headings of the document `id` moved down. -/
def down (id : SourceId) (n : Nat) (b : Build) : Build :=
  ⟨b.headings.map fun h => if h.source = id then h.down n else h, b.sources⟩

theorem map_headings_of_ne {id : SourceId} (n : Nat) {hs : List Heading}
    (h : ∀ hd ∈ hs, hd.source ≠ id) :
    hs.map (fun hd => if hd.source = id then hd.down n else hd) = hs := by
  refine (List.map_congr_left fun hd hhd => ?_).trans (List.map_id' hs)
  rw [if_neg (h hd hhd)]

/-- The headings among the entries move with them, and those of an inclusion stay. -/
theorem collect_down {f g : Inclusion → List SourceId → Except Stop Build} {id : SourceId} (n : Nat)
    (hg : ∀ i seen, g (i.down n) seen = f i seen)
    (hclear : ∀ i seen inner, f i seen = .ok inner → ∀ hd ∈ inner.headings, hd.source ≠ id)
    {es : List Entry} (hes : Entry.Tagged id es) (seen : List SourceId) :
    collect g (es.map (Entry.down n)) seen = (collect f es seen).map (down id n) := by
  induction es generalizing seen with
  | nil => rfl
  | cons e es ih =>
    cases e with
    | rejected => exact ih hes.tail seen
    | heading hd =>
      have hsource : hd.source = id := hes hd List.mem_cons_self
      rw [List.map_cons, Entry.down, collect, collect, ih hes.tail]
      cases collect f es seen with
      | error stop => rfl
      | ok rest => simp [Except.map, down, hsource]
    | inclusion i =>
      rw [List.map_cons, Entry.down, collect, collect, hg]
      cases hinner : f i seen with
      | error stop => rfl
      | ok inner =>
        have hsame := map_headings_of_ne n (hclear i seen inner hinner)
        simp only [ih hes.tail]
        cases collect f es inner.sources with
        | error stop => rfl
        | ok rest => simp only [Except.map, down, List.map_append, hsame]

section

variable {resolve : Resolver} {follow : Bool}
  {visit : Chain → Buffer → List SourceId → Except Stop Build} {prose : List Char} {n : Nat}
  {b b' : Buffer}

theorem expandWith_down (h : b.Prefaced prose n b') (hplain : '\\' ∉ prose)
    (hvisit : ∀ c seen inner, c.id ∉ [b.id] → visit [b.id] c seen = .ok inner →
      ∀ hd ∈ inner.headings, hd.source ∉ [b.id]) (seen : List SourceId) :
    expandWith resolve follow visit [] (.ofBuffer b') seen =
      (expandWith resolve follow visit [] (.ofBuffer b) seen).map (down b.id n) := by
  have hb := @expandWith_ofBuffer resolve follow visit (.root b) seen
  have hb' := @expandWith_ofBuffer resolve follow visit (.root b') seen
  refine hb'.trans (Eq.trans ?_ (congrArg (Except.map _) hb).symm)
  show collect (descend resolve follow visit [] b'.id) b'.entries seen = _
  rw [Buffer.entries_down h hplain, h.id_eq]
  -- the place of an inclusion does not matter, so both documents are expanded alike
  refine collect_down n (fun _ _ => rfl) (fun i seen inner hinner hd hhd hsource => ?_)
    b.tagged_entries seen
  exact source_notMem_of_visit hvisit hinner hd hhd (List.mem_singleton.2 hsource)

theorem expand_down (h : b.Prefaced prose n b') (hplain : '\\' ∉ prose) (depth : Nat)
    (seen : List SourceId) :
    expand resolve follow depth [] (.ofBuffer b') seen =
      (expand resolve follow depth [] (.ofBuffer b) seen).map (down b.id n) := by
  cases depth with
  | zero =>
    rw [expand, expand]
    exact expandWith_down h hplain (fun _ _ _ _ hv => by cases hv) seen
  | succ depth =>
    rw [expand, expand]
    exact expandWith_down h hplain (fun _ _ _ hnew hv => source_notMem_of_expand hnew hv) seen

theorem build_down (h : b.Prefaced prose n b') (hplain : '\\' ∉ prose) (lib : Library)
    (follow : Bool) :
    lib.build follow (.ofBuffer b') = (lib.build follow (.ofBuffer b)).map (down b.id n) := by
  obtain ⟨build, hbuild⟩ := exists_build_eq_ok lib follow b
  have hexpand := Library.build_eq_ok_iff.1 hbuild
  rw [hbuild]
  refine Library.build_eq_ok_iff.2 ?_
  show expand lib.resolve follow lib.bound [] (.ofBuffer b') [b'.id] = _
  rw [h.id_eq, expand_down h hplain]
  exact congrArg (Except.map _) hexpand

end

/-- Prose that ends a line moves all that is found in the text after it down by its lines.
The forms are the same and each is read as before, and in the build the headings of the root
are moved, while those of other documents and the list of documents stay. -/
theorem build_of_prose_append {prose : List Char} (hplain : '\\' ∉ prose)
    (hend : prose.getLast? = some '\n') (id : SourceId) (text : List Char) :
    Occurrence.scan (.ofText id (prose ++ text)) =
      (Occurrence.scan (.ofText id text)).map (Occurrence.down (prose.count '\n')) ∧
    (∀ o : Occurrence,
      (o.down (prose.count '\n')).entry (.ofBuffer (.ofText id (prose ++ text))) =
        (o.entry (.ofBuffer (.ofText id text))).map (Entry.down (prose.count '\n'))) ∧
    (∀ resolve follow depth,
      expand resolve follow depth [] (.ofBuffer (.ofText id (prose ++ text))) [id] =
        (expand resolve follow depth [] (.ofBuffer (.ofText id text)) [id]).map
          (down id (prose.count '\n'))) ∧
    ∀ (lib : Library) (follow : Bool),
      lib.build follow (.ofBuffer (.ofText id (prose ++ text))) =
        (lib.build follow (.ofBuffer (.ofText id text))).map (down id (prose.count '\n')) := by
  have hplain' : '\\' ∉ Text.unifyBreaks prose := fun h =>
    hplain (Text.mem_of_mem_unifyBreaks prose h)
  have hprefaced := Buffer.prefaced_ofText hend id text
  refine ⟨Occurrence.scan_down hprefaced hplain', fun o => ?_,
    fun _ _ depth => expand_down hprefaced hplain' depth [id], build_down hprefaced hplain'⟩
  rw [Occurrence.entry_ofBuffer, Occurrence.entry_ofBuffer, Occurrence.reading_down hprefaced]
  rfl

/-- Three characters that would matter in a text, and a line end of two characters. -/
def preface : List Char :=
  "100% \x7b\r\n \r]\n".toList

def prefacedText : List Char :=
  "\\input{a} \\part\x7b\nb\x7d".toList

/-- A document that includes the root again. -/
def prefaceShelf : Shelf :=
  .ofList [("a.tex", "\\section{a}\\input{main.tex}")]

theorem build_preface :
    prefaceShelf.library.build true
        (.ofBuffer (.ofText ⟨"main.tex"⟩ (preface ++ prefacedText))) =
      .ok ⟨[⟨"a", 3, ⟨0, 0⟩, ⟨"a.tex"⟩⟩, ⟨"b", 1, ⟨2, 10⟩, ⟨"main.tex"⟩⟩],
        [⟨"main.tex"⟩, ⟨"a.tex"⟩]⟩ := by
  have hbuild : prefaceShelf.library.build true (.ofBuffer (.ofText ⟨"main.tex"⟩ prefacedText)) =
      .ok ⟨[⟨"a", 3, ⟨0, 0⟩, ⟨"a.tex"⟩⟩, ⟨"b", 1, ⟨0, 10⟩, ⟨"main.tex"⟩⟩],
        [⟨"main.tex"⟩, ⟨"a.tex"⟩]⟩ := by
    decide +kernel
  have hplain : '\\' ∉ preface := by decide
  have hend : preface.getLast? = some '\n' := by decide
  rw [(build_of_prose_append hplain hend ⟨"main.tex"⟩ prefacedText).2.2.2, hbuild]
  decide +kernel

end Build
end Sectioning
