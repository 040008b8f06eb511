/-
The accepted entries of a buffer by their places.

Scanning goes from form to form, but what it accepts can be said place by place:
an entry is accepted exactly when a reported form stands somewhere in the text and
reads as that entry (`Buffer.mem_accepted_iff`).  A form that is skipped because
it begins inside another one is not genuine.  The entries come in the order of
their anchors, so two buffers with the same entries have them in the same order
(`Buffer.accepted_eq_iff`).
-/
import Mathlib.Data.List.Sort
import Sectioning.Proofs.Endings
import Sectioning.Proofs.Entries

namespace Sectioning

namespace Position

theorem lt_of_after_le {p q : Position} {c : Char} (h : p.after c ≤ q) : p < q := by
  have hlt := lt_afterAll (List.cons_ne_nil c []) p
  rw [afterAll_singleton, lt_iff] at hlt
  rw [le_iff] at h
  rw [lt_iff]
  omega

theorem le_of_lt {p q : Position} (h : p < q) : p ≤ q := by
  rw [lt_iff] at h
  rw [le_iff]
  omega

end Position

namespace Occurrence

/-- A reported form of `b` stands where the occurrence says. -/
def At (b : Buffer) (o : Occurrence) : Prop :=
  ∃ us vs form, b.Splits o.range.start us vs ∧ formAt? vs = some (o.keyword, form) ∧
    isReported o.keyword form = true ∧ o.range.stop = o.range.start.afterAll form

variable {b : Buffer} {o o' : Occurrence}

theorem At.unique (h : o.At b) (h' : o'.At b) (hstart : o.range.start = o'.range.start) :
    o = o' := by
  obtain ⟨us, vs, form, hs, hform, -, hstop⟩ := h
  obtain ⟨us', vs', form', hs', hform', -, hstop'⟩ := h'
  rw [hstart] at hs hstop
  obtain ⟨-, rfl⟩ := hs.unique hs'
  rw [hform, Option.some.injEq, Prod.mk.injEq] at hform'
  obtain ⟨hk, rfl⟩ := hform'
  obtain ⟨k, start, stop⟩ := o
  obtain ⟨k', start', stop'⟩ := o'
  cases hk
  cases hstart
  cases hstop.trans hstop'.symm
  rfl

/-- The three ways in which scanning goes on from a place. -/
theorem scanFrom_cons (n : Nat) (p : Position) (c : Char) (cs : List Char) :
    (0 < n ∧ scanFrom n p (c :: cs) = scanFrom (n - 1) (p.after c) cs) ∨
    (n = 0 ∧ formAt? (c :: cs) = none ∧
      scanFrom n p (c :: cs) = scanFrom 0 (p.after c) cs) ∨
    ∃ k form, n = 0 ∧ formAt? (c :: cs) = some (k, form) ∧
      scanFrom n p (c :: cs) =
        (if isReported k form then [⟨k, ⟨p, p.afterAll form⟩⟩] else []) ++
          scanFrom (form.length - 1) (p.after c) cs := by
  cases n with
  | succ n => exact Or.inl ⟨Nat.succ_pos n, rfl⟩
  | zero =>
    cases h : formAt? (c :: cs) with
    | none => exact Or.inr (Or.inl ⟨rfl, rfl, by rw [scanFrom, h]⟩)
    | some form =>
      obtain ⟨k, form⟩ := form
      refine Or.inr (Or.inr ⟨k, form, rfl, rfl, ?_⟩)
      rw [scanFrom, h]
      by_cases hr : isReported k form = true
      · simp only [hr, if_true, List.singleton_append]
      · simp only [hr, if_false, List.nil_append, Bool.false_eq_true]

/-- Scanning reports forms of the text, none of them before its start. -/
theorem mem_scanFrom {n : Nat} {p : Position} {us cs : List Char} (hs : b.Splits p us cs)
    (h : o ∈ scanFrom n p cs) : o.At b ∧ p ≤ o.range.start := by
  induction cs generalizing n p us with
  | nil => cases n <;> cases h
  | cons c cs ih =>
    rcases scanFrom_cons n p c cs with ⟨-, heq⟩ | ⟨-, -, heq⟩ | ⟨k, form, -, hform, heq⟩
    · rw [heq] at h
      obtain ⟨hat, hle⟩ := ih hs.step h
      exact ⟨hat, Position.le_of_lt (Position.lt_of_after_le hle)⟩
    · rw [heq] at h
      obtain ⟨hat, hle⟩ := ih hs.step h
      exact ⟨hat, Position.le_of_lt (Position.lt_of_after_le hle)⟩
    · rw [heq, List.mem_append] at h
      rcases h with h | h
      · by_cases hr : isReported k form = true
        · rw [if_pos hr, List.mem_singleton] at h
          subst h
          exact ⟨⟨us, c :: cs, form, hs, hform, hr, rfl⟩, Or.inr ⟨rfl, Nat.le_refl _⟩⟩
        · rw [if_neg hr] at h
          cases h
      · obtain ⟨hat, hle⟩ := ih hs.step h
        exact ⟨hat, Position.le_of_lt (Position.lt_of_after_le hle)⟩

theorem pairwise_scanFrom {n : Nat} {p : Position} {us cs : List Char} (hs : b.Splits p us cs) :
    (scanFrom n p cs).Pairwise fun o o' => o.range.start < o'.range.start := by
  induction cs generalizing n p us with
  | nil => cases n <;> exact List.Pairwise.nil
  | cons c cs ih =>
    rcases scanFrom_cons n p c cs with ⟨-, heq⟩ | ⟨-, -, heq⟩ | ⟨k, form, -, -, heq⟩
    · rw [heq]
      exact ih hs.step
    · rw [heq]
      exact ih hs.step
    · rw [heq]
      by_cases hr : isReported k form = true
      · rw [if_pos hr, List.singleton_append, List.pairwise_cons]
        exact ⟨fun o ho => Position.lt_of_after_le (mem_scanFrom hs.step ho).2, ih hs.step⟩
      · rw [if_neg hr, List.nil_append]
        exact ih hs.step

/-- A form that scanning does not report holds no backslash but its first character. -/
theorem exists_of_not_isReported {cs form : List Char} {k : Keyword}
    (hform : formAt? cs = some (k, form)) (hreported : ¬ isReported k form = true) :
    ∃ fs, form = '\\' :: fs ∧ '\\' ∉ fs := by
  obtain ⟨rest, part, -, hpart, rfl⟩ := exists_of_formAt? hform
  obtain ⟨us, d, rfl, hd⟩ := exists_of_ending? hpart
  refine ⟨_, rfl, ?_⟩
  rw [← List.append_assoc, ← List.cons_append, isReported_concat] at hreported
  rcases hd with rfl | rfl | ⟨rfl, hblank⟩
  · exact absurd (by simp) hreported
  · exact absurd (by simp) hreported
  · rw [List.mem_append, List.mem_append, not_or, not_or]
    exact ⟨backslash_notMem_name k, fun hmem => absurd (hblank _ hmem) (by decide), by simp⟩

theorem exists_append_cons_of_length_lt {fs gs form rest : List Char} {c : Char}
    (h : fs ++ c :: gs = form ++ rest) (hlt : fs.length < form.length) :
    ∃ gs', form = fs ++ c :: gs' := by
  rcases List.append_eq_append_iff.1 h with ⟨as, hform, has⟩ | ⟨bs, hbs, -⟩
  · cases as with
    | nil =>
      rw [hform, List.append_nil] at hlt
      omega
    | cons a as =>
      rw [List.cons_append, List.cons.injEq] at has
      exact ⟨as, by rw [hform, has.1]⟩
  · have hlen := congrArg List.length hbs
    rw [List.length_append] at hlen
    omega

/-- The occurrence begins before `p` and ends behind it. -/
def Covers (o : Occurrence) (p : Position) : Prop :=
  o.range.start < p ∧ p < o.range.stop

instance (o : Occurrence) (p : Position) : Decidable (o.Covers p) :=
  inferInstanceAs (Decidable (o.range.start < p ∧ p < o.range.stop))

/-- A form that would be reported is reported, unless another one covers its place or
the text that scanning has still to pass goes beyond it. -/
theorem mem_scanFrom_or_covers {n : Nat} {p : Position} {xs ys form : List Char} {k : Keyword}
    (hform : formAt? ys = some (k, form)) (hreported : isReported k form = true) :
    xs.length < n ∨
    ⟨k, ⟨p.afterAll xs, (p.afterAll xs).afterAll form⟩⟩ ∈ scanFrom n p (xs ++ ys) ∨
    ∃ o ∈ scanFrom n p (xs ++ ys), o.Covers (p.afterAll xs) := by
  obtain ⟨rest, part, rfl, -, -⟩ := exists_of_formAt? hform
  induction xs generalizing n p with
  | nil =>
    rw [List.nil_append]
    rcases scanFrom_cons n p '\\' (k.name.toList ++ rest) with
      ⟨hn, -⟩ | ⟨-, hnone, -⟩ | ⟨k', form', -, hform', heq⟩
    · exact Or.inl hn
    · rw [hform] at hnone
      cases hnone
    · rw [hform, Option.some.injEq, Prod.mk.injEq] at hform'
      obtain ⟨rfl, rfl⟩ := hform'
      rw [heq, if_pos hreported]
      exact Or.inr (Or.inl List.mem_cons_self)
  | cons x xs ih =>
    rw [List.cons_append, Position.afterAll_cons, List.length_cons]
    rcases scanFrom_cons n p x (xs ++ '\\' :: (k.name.toList ++ rest)) with
      ⟨hn, heq⟩ | ⟨-, -, heq⟩ | ⟨k', form', -, hform', heq⟩
    · rw [heq]
      rcases @ih (n - 1) (p.after x) with hlt | h
      · exact Or.inl (by omega)
      · exact Or.inr h
    · rw [heq]
      exact Or.inr ((@ih 0 (p.after x)).resolve_left (Nat.not_lt_zero _))
    · rw [heq]
      rcases @ih (form'.length - 1) (p.after x) with hlt | hmem | ⟨o, ho, hcovers⟩
      · -- the form at `x` goes beyond the place, so it is reported itself
        obtain ⟨vs, hvs⟩ := exists_append_of_formAt? hform'
        have hshort : (x :: xs).length < form'.length := by
          rw [List.length_cons]
          omega
        obtain ⟨gs, hgs⟩ := exists_append_cons_of_length_lt hvs hshort
        have hreported' : isReported k' form' = true := by
          by_contra hnot
          obtain ⟨fs, hfs, hesc⟩ := exists_of_not_isReported hform' hnot
          rw [hgs, List.cons_append, List.cons.injEq] at hfs
          exact hesc (by rw [← hfs.2]; simp)
        rw [if_pos hreported']
        refine Or.inr (Or.inr ⟨_, List.mem_cons_self, ?_, ?_⟩)
        · exact Position.lt_afterAll (List.cons_ne_nil x xs) p
        · show (p.after x).afterAll xs < p.afterAll form'
          rw [hgs, Position.afterAll_append, Position.afterAll_cons]
          exact Position.lt_afterAll (List.cons_ne_nil _ gs) _
      · exact Or.inr (Or.inl (List.mem_append_right _ hmem))
      · exact Or.inr (Or.inr ⟨o, List.mem_append_right _ ho, hcovers⟩)

theorem At.mem_scan_or_covers (h : o.At b) :
    o ∈ scan b ∨ ∃ o' ∈ scan b, o'.Covers o.range.start := by
  obtain ⟨us, vs, form, hs, hform, hreported, hstop⟩ := h
  have hmem := (@mem_scanFrom_or_covers 0 .start us vs form o.keyword hform hreported).resolve_left
    (Nat.not_lt_zero _)
  rw [← hs.place_eq, ← hstop] at hmem
  rw [scan, hs.text_eq]
  exact hmem

theorem at_of_mem_scan (h : o ∈ scan b) : o.At b :=
  (mem_scanFrom (Buffer.Splits.start b) h).1

/-- No form covers a genuine command. -/
theorem At.not_covers (h : o.At b) (h' : o'.At b) (hgenuine : o'.isGenuine b = true) :
    ¬ o.Covers o'.range.start := by
  rintro ⟨hstart, hlt⟩
  obtain ⟨us, vs, form, hs, hform, -, hstop⟩ := h
  obtain ⟨us', vs', form', hs', hform', -, -⟩ := h'
  obtain ⟨rest, part, rfl, -, -⟩ := exists_of_formAt? hform'
  have hplain : Mark.plain.after us' = .plain := hs'.isGenuine_iff.1 hgenuine
  obtain ⟨ws, rfl, rfl⟩ := hs.exists_append_of_le hs' (Position.le_of_lt hstart)
  obtain ⟨xs, hxs⟩ := exists_append_of_formAt? hform
  have hws : ws.length < form.length := by
    by_contra hle
    rcases List.append_eq_append_iff.1 hxs with ⟨as, rfl, -⟩ | ⟨bs, rfl, -⟩
    · rw [List.length_append] at hle
      have hnil : as = [] := List.eq_nil_of_length_eq_zero (by omega)
      rw [hstop, hs'.place_eq, hnil, List.append_nil, Position.afterAll_append, ← hs.place_eq,
        Position.lt_iff] at hlt
      omega
    · have hle' := Position.le_afterAll bs (o.range.start.afterAll form)
      rw [hstop, hs'.place_eq, Position.afterAll_append, ← hs.place_eq, Position.afterAll_append,
        Position.lt_iff] at hlt
      rw [Position.le_iff] at hle'
      omega
  obtain ⟨gs, hgs⟩ := exists_append_cons_of_length_lt hxs hws
  have hne : ws ≠ [] := by
    rintro rfl
    rw [hs'.place_eq, List.append_nil, ← hs.place_eq, Position.lt_iff] at hstart
    omega
  rw [Mark.after_append] at hplain
  exact formAt?_backslash _ hform hne hgs hplain

theorem At.mem_scan (h : o.At b) (hgenuine : o.isGenuine b = true) : o ∈ scan b := by
  refine h.mem_scan_or_covers.resolve_right ?_
  rintro ⟨o', ho', hcovers⟩
  exact (at_of_mem_scan ho').not_covers h hgenuine hcovers

end Occurrence

/-! ## Accepted entries -/

namespace Entry

/-- The place of the command that an entry comes from. -/
def anchor? : Entry → Option Position
  | heading h => some h.anchor
  | inclusion i => some i.anchor
  | rejected => none

/-- One entry is anchored before another. -/
def Before (e e' : Entry) : Prop :=
  ∃ p q, e.anchor? = some p ∧ e'.anchor? = some q ∧ p < q

instance : Std.Irrefl Before :=
  ⟨fun e ⟨p, q, hp, hq, hlt⟩ => by
    rw [hp, Option.some.injEq] at hq
    rw [hq, Position.lt_iff] at hlt
    omega⟩

instance : Std.Antisymm Before :=
  ⟨fun e e' ⟨p, q, hp, hq, hlt⟩ ⟨q', p', hq', hp', hlt'⟩ => by
    rw [hp, Option.some.injEq] at hp'
    rw [hq, Option.some.injEq] at hq'
    rw [← hp', ← hq', Position.lt_iff] at hlt'
    rw [Position.lt_iff] at hlt
    omega⟩

/-- Whether an entry is a heading or an inclusion. -/
def isAccepted (e : Entry) : Bool :=
  e != .rejected

end Entry

namespace Occurrence

variable {b : Buffer} {o : Occurrence}

theorem anchor?_entryOf {source : SourceId} {title : List Char}
    (h : o.entryOf source title ≠ .rejected) :
    (o.entryOf source title).anchor? = some o.range.start := by
  unfold entryOf at h ⊢
  split at h
  · exact absurd rfl h
  · next hne =>
    rw [if_neg hne]
    cases o.keyword.level? <;> rfl

/-- An accepted entry is anchored where its form begins, at a genuine place. -/
theorem reading_spec (h : o.reading b ≠ .rejected) :
    o.isGenuine b = true ∧ (o.reading b).anchor? = some o.range.start := by
  unfold reading at h ⊢
  cases harg : o.argument? b with
  | none =>
    rw [harg] at h
    exact absurd rfl h
  | some r =>
    rw [harg] at h
    refine ⟨?_, anchor?_entryOf h⟩
    by_contra hnot
    rw [argument?, if_neg hnot] at harg
    cases harg

theorem pairwise_filter_reading {os : List Occurrence}
    (h : os.Pairwise fun o o' => o.range.start < o'.range.start) :
    ((os.map (reading b)).filter Entry.isAccepted).Pairwise Entry.Before := by
  rw [List.pairwise_filter, List.pairwise_map]
  refine h.imp fun hlt hne hne' => ?_
  rw [Entry.isAccepted, bne_iff_ne] at hne hne'
  exact ⟨_, _, (reading_spec hne).2, (reading_spec hne').2, hlt⟩

end Occurrence

namespace Buffer

/-- The entries of a buffer that are not rejected, in their order. -/
def accepted (b : Buffer) : List Entry :=
  b.entries.filter Entry.isAccepted

theorem mem_accepted_iff {b : Buffer} {e : Entry} :
    e ∈ b.accepted ↔ e ≠ .rejected ∧ ∃ o : Occurrence, o.At b ∧ o.reading b = e := by
  have haccepted : Entry.isAccepted e = true ↔ e ≠ .rejected := by simp [Entry.isAccepted]
  rw [accepted, List.mem_filter, haccepted, entries, List.mem_map]
  constructor
  · rintro ⟨⟨o, ho, rfl⟩, hne⟩
    exact ⟨hne, o, Occurrence.at_of_mem_scan ho, rfl⟩
  · rintro ⟨hne, o, hat, rfl⟩
    exact ⟨⟨o, hat.mem_scan (Occurrence.reading_spec hne).1, rfl⟩, hne⟩

theorem pairwise_accepted (b : Buffer) : b.accepted.Pairwise Entry.Before :=
  Occurrence.pairwise_filter_reading (Occurrence.pairwise_scanFrom (Splits.start b))

/-- Two buffers accept the same entries in the same order if they accept the same
entries. -/
theorem accepted_eq_iff {b b' : Buffer} :
    b.accepted = b'.accepted ↔ ∀ e, e ∈ b.accepted ↔ e ∈ b'.accepted :=
  ⟨fun h e => by rw [h], b.pairwise_accepted.eq_of_mem_iff b'.pairwise_accepted⟩

end Buffer
end Sectioning
