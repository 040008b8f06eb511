/-
The delimiter that closes a group, by counting.

The rule does not follow a reader.  It goes through the stream from the first octet of a
group and tells of every spot whether it counts: it does not if a backslash that counts
stands right before it, or a percent sign that counts before it on its row
(`Spot.isActive`).  A closing delimiter that counts closes the group if as many delimiters
that count open a group before it as close one (`Spot.Closes`).  Delimiters of the other
kind are not mentioned.

A reader that looks for the end of a group only stands on spots that count, and the groups
that are open are those that were opened and not closed (`Stands`).  A step keeps this
(`Stands.step`) and passes over spots that do not count (`exists_inert_onward?`).  So the
reader finds the first delimiter that closes the group, and if there is none it finds none.
-/
import Mathlib.Data.List.TakeWhile
import Sectioning.Proofs.Streams

namespace Sectioning
namespace Spot

/-! ## The rule -/

/-- Whether a spot counts.  The spots before it are given latest first, each with whether it
counts. -/
def isActive (done : List (Spot × Bool)) (x : Spot) : Bool :=
  !(done.head?.any fun y => y.2 && y.1.octet == .first '\\') &&
    !(done.any fun y => y.2 && y.1.octet == .first '%' && y.1.place.row == x.place.row)

/-- The spots `us`, latest first, each with whether it counts. -/
def marks (us : List Spot) : List (Spot × Bool) :=
  us.foldl (fun done x => (x, isActive done x) :: done) []

/-- How often `ch` counts among the spots `us`. -/
def activeCount (ch : Char) (us : List Spot) : Nat :=
  (marks us).countP fun y => y.2 && y.1.octet == .first ch

/-- The spot `x`, with `us` before it since the group began, closes the group. -/
structure Closes (k : Delimiter) (us : List Spot) (x : Spot) : Prop where
  octet_eq : x.octet = .first k.closer
  active : isActive (marks us) x = true
  balanced : activeCount k.opener us = activeCount k.closer us

instance (k : Delimiter) (us : List Spot) (x : Spot) : Decidable (Closes k us x) :=
  decidable_of_iff
    (x.octet = .first k.closer ∧ isActive (marks us) x = true ∧
      activeCount k.opener us = activeCount k.closer us)
    ⟨fun h => ⟨h.1, h.2.1, h.2.2⟩, fun h => ⟨h.octet_eq, h.active, h.balanced⟩⟩

/-- The spot `x`, with `us` before it, is the first of the stream `s` that closes the group. -/
structure ClosesFirst (k : Delimiter) (s us : List Spot) (x : Spot) : Prop where
  split : ∃ vs, s = us ++ x :: vs
  closes : Closes k us x
  first : ∀ us' x' vs', s = us' ++ x' :: vs' → Closes k us' x' → us.length ≤ us'.length

/-- A spot as it matters to a group of kind `k`: all octets are alike but the backslash, the
percent sign and the two delimiters of the kind. -/
def blur (k : Delimiter) (x : Spot) : Spot :=
  if x.octet ∈ ['\\', '%', k.opener, k.closer].map Octet.first then x else ⟨x.place, .later⟩

variable {k : Delimiter} {us ws : List Spot} {x z : Spot} {ch : Char}

theorem marks_concat (us : List Spot) (x : Spot) :
    marks (us ++ [x]) = (x, isActive (marks us) x) :: marks us := by
  rw [marks, List.foldl_append]
  rfl

theorem isActive_iff {done : List (Spot × Bool)} : isActive done x = true ↔
    (∀ y, done.head? = some (y, true) → y.octet ≠ .first '\\') ∧
      ∀ y, (y, true) ∈ done → y.octet = .first '%' → y.place.row ≠ x.place.row := by
  rw [isActive, Bool.and_eq_true, Bool.not_eq_true', Bool.not_eq_true', Option.any_eq_false,
    List.any_eq_false]
  constructor
  · rintro ⟨hhead, hany⟩
    refine ⟨fun y hy hesc => ?_, fun y hy hcom hrow => hany _ hy (by simp [hcom, hrow])⟩
    have hfalse := hhead _ hy
    simp [hesc] at hfalse
  · rintro ⟨hhead, hany⟩
    refine ⟨?_, ?_⟩
    · rintro ⟨y, active⟩ hy
      cases active with
      | false => rfl
      | true => simpa using hhead y hy
    · rintro ⟨y, active⟩ hy htrue
      simp only [Bool.and_eq_true, beq_iff_eq] at htrue
      obtain ⟨⟨rfl, hcom⟩, hrow⟩ := htrue
      exact hany y hy hcom hrow

theorem mem_of_mem_marks {y : Spot} {active : Bool} (h : (y, active) ∈ marks us) : y ∈ us := by
  induction us using List.reverseRecOn with
  | nil => cases h
  | append_singleton us x ih =>
    rw [marks_concat, List.mem_cons] at h
    rcases h with h | h
    · cases h
      exact List.mem_append_right _ List.mem_cons_self
    · exact List.mem_append_left _ (ih h)

theorem activeCount_concat (ch : Char) (h : isActive (marks us) x = true) :
    activeCount ch (us ++ [x]) =
      activeCount ch us + if x.octet = .first ch then 1 else 0 := by
  rw [activeCount, marks_concat, List.countP_cons, h]
  simp only [Bool.true_and, beq_iff_eq]
  rfl

/-! ## Spots that do not count -/

/-- None of the spots `ws` behind `us` counts. -/
def Inert : List Spot → List Spot → Prop
  | _, [] => True
  | us, x :: ws => isActive (marks us) x = false ∧ Inert (us ++ [x]) ws

theorem Inert.activeCount_eq (h : Inert us ws) (ch : Char) :
    activeCount ch (us ++ ws) = activeCount ch us := by
  induction ws generalizing us with
  | nil => rw [List.append_nil]
  | cons x ws ih =>
    rw [List.append_cons, ih h.2, activeCount, marks_concat, List.countP_cons, h.1]
    simp only [Bool.false_and, Bool.false_eq_true, if_false, Nat.add_zero]
    rfl

theorem Inert.mem_marks (h : Inert us ws) {y : Spot} (hy : (y, true) ∈ marks (us ++ ws)) :
    (y, true) ∈ marks us := by
  induction ws generalizing us with
  | nil => rwa [List.append_nil] at hy
  | cons x ws ih =>
    rw [List.append_cons] at hy
    have hmem := ih h.2 hy
    rw [marks_concat, h.1, List.mem_cons] at hmem
    exact hmem.resolve_left (by simp)

theorem Inert.head?_marks (h : Inert us ws) (hne : ws ≠ []) (y : Spot) :
    (marks (us ++ ws)).head? ≠ some (y, true) := by
  induction ws generalizing us with
  | nil => exact absurd rfl hne
  | cons x ws ih =>
    rw [List.append_cons]
    cases ws with
    | nil =>
      rw [List.append_nil, marks_concat, h.1]
      simp
    | cons x' ws => exact ih h.2 (List.cons_ne_nil _ _)

/-- A percent sign that counts makes the rest of its row inert. -/
theorem inert_of_row {y : Spot} (hy : (y, true) ∈ marks us) (hcom : y.octet = .first '%')
    (h : ∀ x ∈ ws, x.place.row = y.place.row) : Inert us ws := by
  induction ws generalizing us with
  | nil => trivial
  | cons x ws ih =>
    rw [List.forall_mem_cons] at h
    refine ⟨?_, ih ?_ h.2⟩
    · rw [Bool.eq_false_iff, Ne, isActive_iff]
      exact fun hactive => hactive.2 y hy hcom h.1.symm
    · rw [marks_concat]
      exact List.mem_cons_of_mem _ hy

/-! ## Spots that close -/

/-- None of the spots `ws` behind `us` closes the group. -/
def NoneCloses (k : Delimiter) : List Spot → List Spot → Prop
  | _, [] => True
  | us, x :: ws => ¬ Closes k us x ∧ NoneCloses k (us ++ [x]) ws

theorem Inert.noneCloses (h : Inert us ws) : NoneCloses k us ws := by
  induction ws generalizing us with
  | nil => trivial
  | cons x ws ih =>
    refine ⟨fun hcloses => ?_, ih h.2⟩
    have hactive := hcloses.active
    rw [h.1] at hactive
    cases hactive

theorem noneCloses_append {ws' : List Spot} :
    NoneCloses k us (ws ++ ws') ↔ NoneCloses k us ws ∧ NoneCloses k (us ++ ws) ws' := by
  induction ws generalizing us with
  | nil => simp [NoneCloses]
  | cons x ws ih =>
    rw [List.cons_append, NoneCloses, NoneCloses, ih, and_assoc, List.append_assoc]
    rfl

theorem noneCloses_iff : NoneCloses k us ws ↔
    ∀ vs x xs, ws = vs ++ x :: xs → ¬ Closes k (us ++ vs) x := by
  constructor
  · rintro h vs x xs rfl
    exact (noneCloses_append.1 h).2.1
  · intro h
    induction ws generalizing us with
    | nil => trivial
    | cons y ws ih =>
      refine ⟨?_, ih fun vs x xs hws => ?_⟩
      · have hy := h [] y ws rfl
        rwa [List.append_nil] at hy
      · have hx := h (y :: vs) x xs (by rw [hws]; rfl)
        rwa [List.append_cons] at hx

theorem closesFirst_iff {s : List Spot} : ClosesFirst k s us x ↔
    ∃ vs, s = us ++ x :: vs ∧ Closes k us x ∧ NoneCloses k [] us := by
  constructor
  · rintro ⟨⟨vs, hs⟩, hx, hfirst⟩
    refine ⟨vs, hs, hx, noneCloses_iff.2 fun us' x' xs hus hx' => ?_⟩
    subst hus
    have hle := hfirst us' x' (xs ++ x :: vs) (by rw [hs]; simp) hx'
    rw [List.length_append, List.length_cons] at hle
    omega
  · rintro ⟨vs, hs, hx, hus⟩
    refine ⟨⟨vs, hs⟩, hx, fun us' x' vs' hs' hx' => ?_⟩
    by_contra hlt
    rw [hs] at hs'
    rcases List.append_eq_append_iff.1 hs' with ⟨as, rfl, -⟩ | ⟨as, rfl, has⟩
    · rw [List.length_append] at hlt
      omega
    · cases as with
      | nil =>
        rw [List.append_nil] at hlt
        omega
      | cons a as =>
        cases has
        exact noneCloses_iff.1 hus us' x' as rfl hx'

/-- A stream has one first spot that closes. -/
theorem ClosesFirst.unique {s us' : List Spot} {x' : Spot} (h : ClosesFirst k s us x)
    (h' : ClosesFirst k s us' x') : us = us' ∧ x = x' := by
  obtain ⟨vs, hs⟩ := h.split
  obtain ⟨vs', hs'⟩ := h'.split
  have hle := h.first us' x' vs' hs' h'.closes
  have hle' := h'.first us x vs hs h.closes
  rw [hs] at hs'
  obtain ⟨hus, hrest⟩ := List.append_inj hs' (by omega)
  exact ⟨hus, (List.cons.inj hrest).1⟩

/-! ## Octets that do not matter -/

theorem place_blur (k : Delimiter) (x : Spot) : (blur k x).place = x.place := by
  unfold blur
  split <;> rfl

theorem beq_octet_blur (h : ch ∈ ['\\', '%', k.opener, k.closer]) (x : Spot) :
    ((blur k x).octet == .first ch) = (x.octet == .first ch) := by
  unfold blur
  split
  · rfl
  · next hnot =>
    have hne : x.octet ≠ .first ch := by
      intro hx
      rw [hx] at hnot
      exact hnot (List.mem_map_of_mem h)
    rw [beq_false_of_ne hne]
    rfl

theorem isActive_blur (done : List (Spot × Bool)) (x : Spot) :
    isActive (done.map fun y => (blur k y.1, y.2)) (blur k x) = isActive done x := by
  have hesc := beq_octet_blur (show '\\' ∈ ['\\', '%', k.opener, k.closer] by simp)
  have hcom := beq_octet_blur (show '%' ∈ ['\\', '%', k.opener, k.closer] by simp)
  simp only [isActive, List.head?_map, Option.any_map, List.any_map, Function.comp_def, hesc, hcom,
    place_blur]

theorem marks_blur (us : List Spot) :
    marks (us.map (blur k)) = (marks us).map fun y => (blur k y.1, y.2) := by
  induction us using List.reverseRecOn with
  | nil => rfl
  | append_singleton us x ih =>
    rw [List.map_append, List.map_singleton, marks_concat, marks_concat, ih, isActive_blur,
      List.map_cons]

theorem activeCount_blur (h : ch ∈ ['\\', '%', k.opener, k.closer]) (us : List Spot) :
    activeCount ch (us.map (blur k)) = activeCount ch us := by
  rw [activeCount, marks_blur, List.countP_map]
  simp only [Function.comp_def, beq_octet_blur h]
  rfl

/-- Whether a spot closes depends on the octets that matter. -/
theorem closes_blur : Closes k (us.map (blur k)) (blur k x) ↔ Closes k us x := by
  have hoctet : (blur k x).octet = .first k.closer ↔ x.octet = .first k.closer := by
    rw [← beq_iff_eq, beq_octet_blur (by simp), beq_iff_eq]
  have hactive : isActive (marks (us.map (blur k))) (blur k x) = isActive (marks us) x := by
    rw [marks_blur, isActive_blur]
  have hopener := activeCount_blur (show k.opener ∈ ['\\', '%', k.opener, k.closer] by simp) us
  have hcloser := activeCount_blur (show k.closer ∈ ['\\', '%', k.opener, k.closer] by simp) us
  constructor
  · rintro ⟨h, hx, hbalanced⟩
    exact ⟨hoctet.1 h, hactive ▸ hx, by omega⟩
  · rintro ⟨h, hx, hbalanced⟩
    exact ⟨hoctet.2 h, hactive.symm ▸ hx, by omega⟩

theorem noneCloses_blur :
    NoneCloses k (us.map (blur k)) (ws.map (blur k)) ↔ NoneCloses k us ws := by
  induction ws generalizing us with
  | nil => exact Iff.rfl
  | cons x ws ih =>
    rw [List.map_cons, NoneCloses, NoneCloses, closes_blur, ← ih, List.map_append,
      List.map_singleton]

/-- Where the first spot that closes stands depends on the octets that matter. -/
theorem ClosesFirst.of_blur {s s' : List Spot} (h : ClosesFirst k s us x)
    (hs : s.map (blur k) = s'.map (blur k)) :
    ∃ us' x', ClosesFirst k s' us' x' ∧ x'.place = x.place := by
  obtain ⟨vs, rfl, hx, hus⟩ := closesFirst_iff.1 h
  rw [List.map_append, List.map_cons] at hs
  obtain ⟨us', rest, rfl, hus', hrest⟩ := List.map_eq_append_iff.1 hs.symm
  obtain ⟨x', vs', rfl, hx', -⟩ := List.map_eq_cons_iff.1 hrest
  refine ⟨us', x', closesFirst_iff.2 ⟨vs', rfl, ?_, ?_⟩, ?_⟩
  · rwa [← closes_blur, hus', hx', closes_blur]
  · rw [← noneCloses_blur, List.map_nil] at hus ⊢
    rwa [hus']
  · rw [← place_blur k, hx', place_blur]

end Spot

/-! ## The reader -/

open Spot

/-- A reader with `n` groups open has come behind the spots `us` and stands on `x`. -/
structure Stands (k : Delimiter) (n : Nat) (us : List Spot) (x : Spot) : Prop where
  active : isActive (marks us) x = true
  depth_eq : activeCount k.opener us = activeCount k.closer us + n
  row_le : ∀ y ∈ us, y.place.row ≤ x.place.row

namespace Stands

variable {k : Delimiter} {n : Nat} {us ws : List Spot} {x z : Spot}

theorem closes_iff (h : Stands k n us x) :
    Closes k us x ↔ x.octet = .first k.closer ∧ n = 0 := by
  have hdepth := h.depth_eq
  constructor
  · rintro ⟨hoctet, -, hbalanced⟩
    exact ⟨hoctet, by omega⟩
  · rintro ⟨hoctet, rfl⟩
    exact ⟨hoctet, h.active, hdepth⟩

/-- On the way from one spot that counts to the next, over spots that do not. -/
theorem step (h : Stands k n us x) (hclose : ¬ (x.octet = .first k.closer ∧ n = 0))
    (hinert : Inert (us ++ [x]) ws) (hesc : ws = [] → x.octet ≠ .first '\\')
    (hcom : x.octet = .first '%' → x.place.row ≠ z.place.row)
    (hrow : ∀ y ∈ x :: ws, y.place.row ≤ z.place.row) :
    Stands k (k.depthAfter x.octet n) (us ++ x :: ws) z := by
  rw [List.forall_mem_cons] at hrow
  rw [List.append_cons]
  refine ⟨isActive_iff.2 ⟨?_, ?_⟩, ?_, ?_⟩
  · -- the spot before `z` is `x`, or it does not count
    intro y hy
    by_cases hws : ws = []
    · subst hws
      rw [List.append_nil, marks_concat, List.head?_cons, Option.some.injEq, Prod.mk.injEq] at hy
      rw [← hy.1]
      exact hesc rfl
    · exact absurd hy (hinert.head?_marks hws y)
  · intro y hy hpercent hsame
    have hmem := hinert.mem_marks hy
    rw [marks_concat, List.mem_cons, Prod.mk.injEq] at hmem
    rcases hmem with ⟨rfl, -⟩ | hmem
    · exact hcom hpercent hsame
    · -- a percent sign before `x` on the row of `z` would be on the row of `x`
      have hle := h.row_le y (mem_of_mem_marks hmem)
      exact (isActive_iff.1 h.active).2 y hmem hpercent (by omega)
  · have hdepth := h.depth_eq
    rw [hinert.activeCount_eq, hinert.activeCount_eq, activeCount_concat _ h.active,
      activeCount_concat _ h.active, Delimiter.depthAfter]
    by_cases hcloser : x.octet = .first k.closer
    · have hopener : x.octet ≠ .first k.opener := by
        rw [hcloser]
        cases k <;> decide
      have hn : n ≠ 0 := fun hn => hclose ⟨hcloser, hn⟩
      rw [if_neg hopener, if_pos hcloser, if_pos hcloser]
      omega
    · rw [if_neg hcloser, if_neg hcloser]
      split <;> omega
  · intro y hy
    rw [List.append_assoc, List.mem_append] at hy
    rcases hy with hy | hy
    · exact Nat.le_trans (h.row_le y hy) hrow.1
    · rcases List.mem_cons.1 hy with rfl | hy
      · exact hrow.1
      · exact hrow.2 y hy

end Stands

namespace Cursor

variable {b : Buffer} {p : Position} {k : Delimiter} {n : Nat} {us : List Spot} {c : Cursor}

/-- A reader passes over spots that do not count. -/
theorem exists_inert_onward? (h : isActive (marks us) c.spot = true) :
    ∃ ws, c.ahead = ws ++ stream? c.onward? ∧ Inert (us ++ [c.spot]) ws ∧
      ∀ e, c.onward? = some e → (ws = [] → c.octet ≠ .first '\\') ∧
        (c.octet = .first '%' → c.position.row ≠ e.position.row) ∧
        ∀ y ∈ c.spot :: ws, y.place.row ≤ e.position.row := by
  have hhead : marks (us ++ [c.spot]) = (c.spot, true) :: marks us := by rw [marks_concat, h]
  unfold onward?
  split
  · next hesc =>
    -- a backslash takes one spot along, wherever that is
    cases hd : c.advance? with
    | none =>
      refine ⟨[], ?_, trivial, fun e he => by cases he⟩
      rw [← stream?_advance?, hd]
      rfl
    | some d =>
      refine ⟨[d.spot], ?_, ⟨?_, trivial⟩, fun e he => ⟨by simp, ?_, ?_⟩⟩
      · rw [ahead_of_advance? hd, Option.bind_some, stream?_advance?]
        rfl
      · rw [Bool.eq_false_iff, Ne, isActive_iff, hhead]
        exact fun hactive => hactive.1 _ rfl hesc
      · rw [hesc]
        simp
      · have hle := row_le_of_advance? he
        rw [List.forall_mem_cons, List.forall_mem_singleton]
        exact ⟨Nat.le_trans (row_le_of_advance? hd) hle, hle⟩
  · next hesc =>
    split
    · next hcom =>
      -- a percent sign takes the rest of its row along
      have hws : ∀ x ∈ c.ahead.takeWhile fun x => x.place.row == c.position.row,
          x.place.row = c.spot.place.row := by
        intro x hx
        have hsame := List.mem_takeWhile_imp hx
        exact beq_iff_eq.1 hsame
      refine ⟨c.ahead.takeWhile fun x => x.place.row == c.position.row, ?_,
        inert_of_row (y := c.spot) (by rw [hhead]; exact List.mem_cons_self) hcom hws,
        fun e he => ?_⟩
      · rw [stream?_nextLine?, List.takeWhile_append_dropWhile]
      · have hlt := row_lt_of_nextLine? he
        refine ⟨fun _ => hesc, fun _ => Nat.ne_of_lt hlt, ?_⟩
        rw [List.forall_mem_cons]
        exact ⟨Nat.le_of_lt hlt, fun y hy => by rw [hws y hy]; exact Nat.le_of_lt hlt⟩
    · next hcom =>
      refine ⟨[], (stream?_advance? c).symm, trivial, fun e he => ⟨fun _ => hesc, ?_, ?_⟩⟩
      · exact fun hpercent => absurd hpercent hcom
      · rw [List.forall_mem_singleton]
        exact row_le_of_advance? he

/-- A reader finds the first spot that closes, or there is none. -/
theorem matchClose?_stands (h : Stands k n us c.spot) :
    (∀ d, matchClose? k n c = some d → ∃ ws, c.stream = ws ++ d.stream ∧
      NoneCloses k us ws ∧ Closes k (us ++ ws) d.spot) ∧
    (matchClose? k n c = none → NoneCloses k us c.stream) := by
  fun_induction matchClose? k n c generalizing us with
  | case1 n c hclose =>
    refine ⟨fun d hd => ?_, fun hnone => by cases hnone⟩
    cases hd
    refine ⟨[], rfl, trivial, ?_⟩
    rw [List.append_nil]
    exact h.closes_iff.2 hclose
  | case2 n c hclose hnone =>
    refine ⟨fun d hd => (by cases hd), fun _ => ?_⟩
    obtain ⟨ws, hahead, hinert, -⟩ := exists_inert_onward? h.active
    rw [hnone, stream?, List.append_nil] at hahead
    rw [stream, hahead]
    exact ⟨fun hcloses => hclose (h.closes_iff.1 hcloses), hinert.noneCloses⟩
  | case3 n c hclose e he ih =>
    obtain ⟨ws, hahead, hinert, hstep⟩ := exists_inert_onward? h.active
    obtain ⟨hesc, hcom, hrow⟩ := hstep e he
    obtain ⟨ihsome, ihnone⟩ := ih (h.step hclose hinert hesc hcom hrow)
    have hpassed : NoneCloses k us (c.spot :: ws) :=
      ⟨fun hcloses => hclose (h.closes_iff.1 hcloses), hinert.noneCloses⟩
    have hstream : c.stream = (c.spot :: ws) ++ e.stream := by
      rw [stream, hahead, he]
      rfl
    refine ⟨fun d hd => ?_, fun hnone => ?_⟩
    · obtain ⟨ws', hws', hnone, hcloses⟩ := ihsome d hd
      refine ⟨c.spot :: ws ++ ws', ?_, noneCloses_append.2 ⟨hpassed, hnone⟩, ?_⟩
      · rw [hstream, hws', List.append_assoc]
      · rwa [← List.append_assoc]
    · rw [hstream]
      exact noneCloses_append.2 ⟨hpassed, ihnone hnone⟩

theorem stands_start (k : Delimiter) (c : Cursor) : Stands k 0 [] c.spot :=
  ⟨rfl, rfl, fun _ hy => by cases hy⟩

theorem findClose?_eq_some {d : Cursor} (h : findClose? k .zero c = some d) :
    ∃ us, ClosesFirst k c.stream us d.spot ∧ c.stream = us ++ d.stream := by
  rw [findClose?_zero] at h
  obtain ⟨us, hstream, hnone, hcloses⟩ := (matchClose?_stands (stands_start k c)).1 d h
  exact ⟨us, closesFirst_iff.2 ⟨d.ahead, hstream, hcloses, hnone⟩, hstream⟩

theorem findClose?_eq_none_iff :
    findClose? k .zero c = none ↔ ∀ us x, ¬ ClosesFirst k c.stream us x := by
  constructor
  · intro h us x hfirst
    obtain ⟨vs, hs⟩ := hfirst.split
    rw [findClose?_zero] at h
    have hnone := (matchClose?_stands (stands_start k c)).2 h
    exact noneCloses_iff.1 hnone us x vs hs hfirst.closes
  · intro h
    cases hd : findClose? k .zero c with
    | none => rfl
    | some d =>
      obtain ⟨us, hfirst, -⟩ := findClose?_eq_some hd
      exact absurd hfirst (h us d.spot)

theorem position_findClose?_iff {q : Position} :
    (findClose? k .zero c).map (·.position) = some q ↔
      ∃ us x, ClosesFirst k c.stream us x ∧ x.place = q := by
  cases hd : findClose? k .zero c with
  | none =>
    refine iff_of_false (by simp) ?_
    rintro ⟨us, x, hfirst, -⟩
    exact findClose?_eq_none_iff.1 hd us x hfirst
  | some d =>
    obtain ⟨us, hfirst, -⟩ := findClose?_eq_some hd
    rw [Option.map_some, Option.some.injEq]
    constructor
    · intro hq
      exact ⟨us, d.spot, hfirst, hq⟩
    · rintro ⟨us', x, hfirst', hq⟩
      rw [← hq, ← (hfirst.unique hfirst').2]
      rfl

/-- From a place on, the group closes at the first delimiter that counts and has as many
delimiters of its own kind before it that open a group as such that close one.  Nothing
else matters: where all the rest of the stream is replaced, the delimiters of the other
kind included, the group closes at the same place, and it does so whatever was counted of
the other kind before. -/
theorem findClose?_closesFirst (h : b.cursorAt? p = some c) (k : Delimiter) :
    (∀ q, (c.findClose? k .zero).map (·.position) = some q ↔
      ∃ us x, ClosesFirst k (b.stream p) us x ∧ x.place = q) ∧
    (c.findClose? k .zero = none ↔
      ∀ us x vs, b.stream p = us ++ x :: vs → ¬ Closes k us x) ∧
    (∀ (b' : Buffer) c', b'.cursorAt? p = some c' →
      (b'.stream p).map (blur k) = (b.stream p).map (blur k) →
      (c'.findClose? k .zero).map (·.position) = (c.findClose? k .zero).map (·.position)) ∧
    ∀ n : Counts, n.get k = 0 → c.findClose? k n = c.findClose? k .zero := by
  rw [← stream_of_cursorAt? h]
  refine ⟨fun q => position_findClose?_iff, ?_, ?_, fun n hn => ?_⟩
  · constructor
    · intro hnone us x vs hs
      rw [findClose?_zero] at hnone
      have hstands := (matchClose?_stands (stands_start k c)).2 hnone
      exact noneCloses_iff.1 hstands us x vs hs
    · intro hnone
      refine findClose?_eq_none_iff.2 fun us x hfirst => ?_
      obtain ⟨vs, hs⟩ := hfirst.split
      exact hnone us x vs hs hfirst.closes
  · intro b' c' h' hblur
    rw [← stream_of_cursorAt? h'] at hblur
    refine Option.ext fun q => ?_
    rw [position_findClose?_iff, position_findClose?_iff]
    constructor
    · rintro ⟨us, x, hfirst, hq⟩
      obtain ⟨us', x', hfirst', hplace⟩ := hfirst.of_blur hblur
      exact ⟨us', x', hfirst', hplace.trans hq⟩
    · rintro ⟨us, x, hfirst, hq⟩
      obtain ⟨us', x', hfirst', hplace⟩ := hfirst.of_blur hblur.symm
      exact ⟨us', x', hfirst', hplace.trans hq⟩
  · rw [findClose?_eq_matchClose? (m := 0) hn, findClose?_zero]

/-- A title with a closing brace in a comment, a nested group with an escaped brace, and a
brace behind a backslash that ends its line. -/
def tangled : Buffer :=
  .ofString ⟨"main.tex"⟩ "\\section\x7ba]%\x7d\n \n\x7b\\\x7d\x7d\\\n\x7db\x7d"

theorem findClose?_tangled :
    ∃ c, tangled.cursorAt? ⟨0, 9⟩ = some c ∧
      (c.findClose? .brace .zero).map (·.position) = some ⟨3, 2⟩ ∧
      ∃ us x, ClosesFirst .brace (tangled.stream ⟨0, 9⟩) us x ∧ x.place = ⟨3, 2⟩ := by
  obtain ⟨c, hc⟩ : ∃ c, tangled.cursorAt? ⟨0, 9⟩ = some c := ⟨_, rfl⟩
  have hfound : ((tangled.cursorAt? ⟨0, 9⟩).bind (findClose? .brace .zero)).map (·.position) =
      some ⟨3, 2⟩ := by decide +kernel
  rw [hc, Option.bind_some] at hfound
  exact ⟨c, hc, hfound, ((findClose?_closesFirst hc .brace).1 _).1 hfound⟩

end Cursor
end Sectioning
