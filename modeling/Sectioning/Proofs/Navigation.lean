/-
What keys, cursors and new outlines do to a view.

A view is sound when its selection is a heading of the outline and its folds are
headings with children.  Every way of moving is one of three changes: another
selection, one fold more, or fewer folds (`moves_go`, `moves_fold`,
`moves_unfold`).  None of them loses soundness or hides a selection that is shown.
A new selection is shown because it was looked for among the headings shown, or
because the headings above it are among those above the old one.

`sound_run` carries soundness through any run of keys, cursors and new outlines.
A new outline keeps it as well, but can hide the selection.
-/
import Sectioning.Proofs.Ancestry
import Sectioning.Proofs.Lookup
import Sectioning.View.Key

namespace Sectioning

/-! ## Folds -/

namespace Folds

theorem contains_insert {f : Folds} {i j : Nat} :
    (f.insert i).contains j = true ↔ j = i ∨ f.contains j = true := by
  simp only [contains, insert, List.contains_iff_mem, mem_insertInto]

theorem contains_filter {f : Folds} {keep : Nat → Bool} {i : Nat} :
    (f.filter keep).contains i = true ↔ f.contains i = true ∧ keep i = true := by
  simp only [contains, filter, List.contains_iff_mem, List.mem_filter]

end Folds

namespace View

/-- Whether the selection is shown. -/
def IsShown (v : View) : Prop :=
  v.isHidden v.selected = false

/-- The selection is a heading of the outline, or zero if there is none, and only
headings with children are folded. -/
structure Sound (v : View) : Prop where
  selected_lt : v.outline.size ≠ 0 → v.selected < v.outline.size
  selected_eq_zero : v.outline.size = 0 → v.selected = 0
  folds_spec : ∀ i, v.folds.contains i = true →
    i < v.outline.size ∧ v.outline.hasChildren i = true

/-- What a key or a cursor leaves as it is. -/
structure Keeps (v v' : View) : Prop where
  outline_eq : v'.outline = v.outline
  root_eq : v'.root = v.root
  sound : v.Sound → v'.Sound
  shown : v.IsShown → v'.IsShown

/-- What a key that does not go to the selection leaves as it is. -/
structure Moves (v v' : View) : Prop extends Keeps v v' where
  cursor_eq : v'.cursor = v.cursor

variable {v v' w : View} {i : Nat}

theorem isHidden_eq_false_iff :
    v.isHidden i = false ↔ ∀ a ∈ v.outline.ancestors i, ¬ v.folds.contains a = true := by
  rw [isHidden, List.any_eq_false]

theorem start_sound (o : Outline) (root : SourceId) : (start o root).Sound where
  selected_lt h := Nat.pos_of_ne_zero h
  selected_eq_zero _ := rfl
  folds_spec i hi := by
    rw [show (start o root).folds.contains i = false from rfl] at hi
    cases hi

theorem Sound.lt_size (h : v.Sound) (hi : i < v.selected) : i < v.outline.size := by
  have hlt := h.selected_lt
  have hzero := h.selected_eq_zero
  omega

/-! ## Changes -/

/-- Soundness and what is shown depend on the outline, the selection and the
folds. -/
theorem keeps_of_eq (houtline : v'.outline = v.outline) (hroot : v'.root = v.root)
    (hselected : v'.selected = v.selected) (hfolds : v'.folds = v.folds) : Keeps v v' where
  outline_eq := houtline
  root_eq := hroot
  sound h := by
    refine ⟨?_, ?_, ?_⟩
    · rw [houtline, hselected]
      exact h.selected_lt
    · rw [houtline, hselected]
      exact h.selected_eq_zero
    · rw [houtline, hfolds]
      exact h.folds_spec
  shown h := by
    rw [IsShown, isHidden, houtline, hselected, hfolds]
    exact h

theorem Keeps.trans (h : Keeps v v') (h' : Keeps v' w) : Keeps v w where
  outline_eq := h'.outline_eq.trans h.outline_eq
  root_eq := h'.root_eq.trans h.root_eq
  sound hv := h'.sound (h.sound hv)
  shown hv := h'.shown (h.shown hv)

theorem Moves.refl (v : View) : Moves v v where
  toKeeps := keeps_of_eq rfl rfl rfl rfl
  cursor_eq := rfl

theorem moves_go {target : Option Nat}
    (h : ∀ i, target = some i →
      (v.Sound → i < v.outline.size) ∧ (v.IsShown → v.isHidden i = false)) :
    Moves v (v.go target) := by
  cases target with
  | none => exact Moves.refl v
  | some i =>
    obtain ⟨hlt, hshown⟩ := h i rfl
    refine ⟨⟨rfl, rfl, fun hv => ?_, hshown⟩, rfl⟩
    have hi := hlt hv
    refine ⟨fun _ => hi, fun hempty => ?_, hv.folds_spec⟩
    change v.outline.size = 0 at hempty
    omega

theorem moves_fold (h : v.outline.hasChildren v.selected = true) :
    Moves v (v.fold v.selected) where
  outline_eq := rfl
  root_eq := rfl
  sound hv := by
    refine ⟨hv.selected_lt, hv.selected_eq_zero, fun j hj => ?_⟩
    rcases Folds.contains_insert.1 hj with rfl | hj
    · exact ⟨Outline.lt_size_of_hasChildren h, h⟩
    · exact hv.folds_spec j hj
  shown hv := by
    refine isHidden_eq_false_iff.2 fun a ha hfold => ?_
    rcases Folds.contains_insert.1 hfold with rfl | hfold
    · exact Nat.lt_irrefl _ (Outline.lt_of_mem_ancestors ha)
    · exact isHidden_eq_false_iff.1 hv a ha hfold
  cursor_eq := rfl

theorem moves_unfold (v : View) (i : Nat) : Moves v (v.unfold i) where
  outline_eq := rfl
  root_eq := rfl
  sound hv := ⟨hv.selected_lt, hv.selected_eq_zero, fun j hj =>
    hv.folds_spec j (Folds.contains_filter.1 hj).1⟩
  shown hv := isHidden_eq_false_iff.2 fun a ha hfold =>
    isHidden_eq_false_iff.1 hv a ha (Folds.contains_filter.1 hfold).1
  cursor_eq := rfl

theorem isShown_reveal (v : View) (i : Nat) : (v.reveal i).IsShown := by
  refine isHidden_eq_false_iff.2 fun a ha hfold => ?_
  have habove := (Folds.contains_filter.1 hfold).2
  change a ∈ v.outline.ancestors i at ha
  rw [List.contains_iff_mem.2 ha] at habove
  cases habove

theorem sound_reveal (hv : v.Sound) (hi : i < v.outline.size) : (v.reveal i).Sound where
  selected_lt _ := hi
  selected_eq_zero hempty := by
    change v.outline.size = 0 at hempty
    omega
  folds_spec j hj := hv.folds_spec j (Folds.contains_filter.1 hj).1

/-! ## Where the selection goes -/

theorem prevVisible?_spec (h : v.prevVisible? = some i) :
    i < v.selected ∧ v.isHidden i = false := by
  have hmem := List.mem_of_find?_eq_some h
  rw [List.mem_reverse, List.mem_range] at hmem
  have hshown := List.find?_some h
  rw [Bool.not_eq_true'] at hshown
  exact ⟨hmem, hshown⟩

theorem nextVisible?_spec (h : v.nextVisible? = some i) :
    i < v.outline.size ∧ v.isHidden i = false := by
  have hmem := List.mem_range.1 (List.mem_of_find?_eq_some h)
  have hshown := List.find?_some h
  rw [Bool.and_eq_true, Bool.not_eq_true'] at hshown
  exact ⟨hmem, hshown.2⟩

theorem last?_spec (h : v.last? = some i) : i < v.outline.size ∧ v.isHidden i = false := by
  obtain ⟨hmem, hshown⟩ := List.mem_filter.1 (List.mem_of_mem_getLast? h)
  rw [Bool.not_eq_true'] at hshown
  exact ⟨List.mem_range.1 hmem, hshown⟩

theorem moves_prevVisible (v : View) : Moves v (v.go v.prevVisible?) := by
  apply moves_go
  intro i hi
  obtain ⟨hlt, hshown⟩ := prevVisible?_spec hi
  exact ⟨fun hv => hv.lt_size hlt, fun _ => hshown⟩

/-- The headings shown are a target whatever the selection is. -/
theorem moves_shown {target : Option Nat}
    (h : ∀ i, target = some i → i < v.outline.size ∧ v.isHidden i = false) :
    Moves v (v.go target) := by
  apply moves_go
  intro i hi
  obtain ⟨hlt, hshown⟩ := h i hi
  exact ⟨fun _ => hlt, fun _ => hshown⟩

theorem moves_nextVisible (v : View) : Moves v (v.go v.nextVisible?) :=
  moves_shown fun _ => nextVisible?_spec

theorem moves_last (v : View) : Moves v (v.go v.last?) :=
  moves_shown fun _ => last?_spec

/-- A sibling has the same headings above it. -/
theorem moves_sibling {target : Option Nat}
    (h : ∀ i, target = some i → i ∈ v.outline.siblings v.selected) :
    Moves v (v.go target) := by
  apply moves_go
  intro i hi
  obtain ⟨hlt, hparent⟩ := Outline.mem_under_iff.1 (h i hi)
  refine ⟨fun _ => hlt, fun hv => ?_⟩
  rw [isHidden, Outline.ancestors_congr hparent]
  exact hv

theorem moves_prevSibling (v : View) : Moves v (v.go v.prevSibling?) :=
  moves_sibling fun _ => Outline.mem_siblings_of_prevSibling?

theorem moves_nextSibling (v : View) : Moves v (v.go v.nextSibling?) :=
  moves_sibling fun _ => Outline.mem_siblings_of_nextSibling?

theorem moves_first (v : View) : Moves v (v.go v.first?) := by
  apply moves_go
  intro i hi
  unfold first? at hi
  split at hi
  · cases hi
  · next hne =>
    cases hi
    refine ⟨fun _ => ?_, fun _ => ?_⟩
    · exact List.length_pos_iff.2 fun hnil => hne (List.isEmpty_iff.2 hnil)
    · rw [isHidden, Outline.ancestors_of_none v.outline.parent?_zero]
      rfl

theorem moves_parent (v : View) : Moves v (v.go v.parent?) := by
  apply moves_go
  intro p hp
  refine ⟨fun hv => hv.lt_size (Outline.parent?_lt hp), fun hv => ?_⟩
  -- what is above the parent is above the selection
  rw [IsShown, isHidden_eq_false_iff, Outline.ancestors_of_some hp] at hv
  exact isHidden_eq_false_iff.2 fun a ha => hv a (List.mem_cons_of_mem p ha)

theorem moves_firstChild (h : ¬ v.folds.contains v.selected = true) :
    Moves v (v.go v.firstChild?) := by
  apply moves_go
  intro i hi
  have hchild := List.mem_of_mem_head? hi
  refine ⟨fun _ => (Outline.mem_under_iff.1 hchild).1, fun hv => ?_⟩
  rw [isHidden_eq_false_iff, Outline.ancestors_of_some (Outline.parent?_of_child hchild)]
  intro a ha
  rcases List.mem_cons.1 ha with rfl | ha
  · exact h
  · exact isHidden_eq_false_iff.1 hv a ha

/-! ## Keys -/

theorem moves_toggle (v : View) : Moves v v.toggle := by
  unfold toggle
  split
  · next h =>
    split
    · exact moves_unfold v v.selected
    · exact moves_fold h
  · exact Moves.refl v

theorem moves_collapseOrParent (v : View) : Moves v v.collapseOrParent := by
  unfold collapseOrParent
  split
  · next h => exact moves_fold (Bool.and_eq_true_iff.1 h).1
  · exact moves_parent v

theorem moves_expandOrChild (v : View) : Moves v v.expandOrChild := by
  unfold expandOrChild
  split
  · exact moves_unfold v v.selected
  · next h => exact moves_firstChild h

theorem moves_char (v : View) (c : Char) (shift : Bool) : Moves v (v.move ⟨.char c, shift⟩) := by
  simp only [move]
  split_ifs
  · exact moves_prevVisible v
  · exact moves_nextVisible v
  · exact moves_collapseOrParent v
  · exact moves_expandOrChild v
  · exact moves_toggle v
  · exact Moves.refl v

theorem moves_move {k : Key} (h : k.code ≠ .enter) : Moves v (v.move k) := by
  obtain ⟨code, shift⟩ := k
  cases code with
  | up =>
    cases shift with
    | false => exact moves_prevVisible v
    | true => exact moves_prevSibling v
  | down =>
    cases shift with
    | false => exact moves_nextVisible v
    | true => exact moves_nextSibling v
  | left => exact moves_collapseOrParent v
  | right => exact moves_expandOrChild v
  | home => exact moves_first v
  | endKey => exact moves_last v
  | enter => exact absurd rfl h
  | char c => exact moves_char v c shift
  | escape | tab | other => exact Moves.refl v

theorem keeps_jump (v : View) : Keeps v v.jump := by
  unfold jump
  split
  · exact (Moves.refl v).toKeeps
  · exact keeps_of_eq rfl rfl rfl rfl

theorem keeps_move (v : View) (k : Key) : Keeps v (v.move k) := by
  by_cases h : k.code = .enter
  · rw [move, h]
    exact keeps_jump v
  · exact (moves_move h).toKeeps

variable {s : Schedule} {now : Nat} {k : Key}

theorem keeps_press : Keeps v (v.press s now k).view := by
  have hmessage : Keeps v { v with message := none } := keeps_of_eq rfl rfl rfl rfl
  unfold press
  split
  · exact hmessage
  · split
    · exact keeps_of_eq rfl rfl rfl rfl
    · exact hmessage.trans (keeps_move _ k)

theorem cursor_press (h : k.code ≠ .enter) : (v.press s now k).view.cursor = v.cursor := by
  unfold press
  split
  · rfl
  · split
    · rfl
    · exact (moves_move h).cursor_eq

theorem schedule_press (h : k.code ≠ .char 'r') : (v.press s now k).schedule = s := by
  unfold press
  split
  · rfl
  · rfl

/-! ## Cursors and new outlines -/

theorem lt_size_of_headingAt? {o : Outline} {source : SourceId} {cursor : Position}
    (h : o.headingAt? source cursor = some i) : i < o.size := by
  obtain ⟨hd, hin, -⟩ := Outline.headingAt?_eq_some_iff.1 h
  exact (List.getElem?_eq_some_iff.1 hin.1).1

theorem follow_of_none {cursor : Position} (h : v.outline.headingAt? v.root cursor = none) :
    v.follow cursor = { v with cursor := some cursor } := by
  rw [follow]
  simp only [h, Option.elim_none]

theorem follow_of_some {cursor : Position} (h : v.outline.headingAt? v.root cursor = some i) :
    v.follow cursor = View.reveal { v with cursor := some cursor } i := by
  rw [follow]
  simp only [h, Option.elim_some]

theorem keeps_follow (v : View) (cursor : Position) : Keeps v (v.follow cursor) := by
  have hcursor : Keeps v { v with cursor := some cursor } := keeps_of_eq rfl rfl rfl rfl
  cases h : v.outline.headingAt? v.root cursor with
  | none =>
    rw [follow_of_none h]
    exact hcursor
  | some i =>
    rw [follow_of_some h]
    exact ⟨rfl, rfl, fun hv => sound_reveal (hcursor.sound hv) (lt_size_of_headingAt? h),
      fun _ => isShown_reveal _ i⟩

theorem cursor_follow (v : View) (cursor : Position) : (v.follow cursor).cursor = some cursor := by
  cases h : v.outline.headingAt? v.root cursor with
  | none => rw [follow_of_none h]
  | some i =>
    rw [follow_of_some h]
    rfl

/-- The view with a new outline, before the cursor is followed. -/
def carryOver (v : View) (o : Outline) : View :=
  { v with
    outline := o
    selected := if o.size ≤ v.selected then o.size - 1 else v.selected
    folds := v.folds.filter fun i => decide (i < o.size) && o.hasChildren i }

theorem replaceOutline_of_none (h : v.cursor = none) (o : Outline) :
    v.replaceOutline o = v.carryOver o := by
  unfold replaceOutline
  simp only [h, Option.elim_none]
  rw [carryOver, h]

theorem replaceOutline_of_some {cursor : Position} (h : v.cursor = some cursor) (o : Outline) :
    v.replaceOutline o = (v.carryOver o).follow cursor := by
  unfold replaceOutline
  simp only [h, Option.elim_some]
  rw [carryOver, h]

/-- A view becomes sound with a new outline, whatever it was before. -/
theorem sound_carryOver (v : View) (o : Outline) : (v.carryOver o).Sound where
  selected_lt h := by
    change o.size ≠ 0 at h
    change (if o.size ≤ v.selected then o.size - 1 else v.selected) < o.size
    split <;> omega
  selected_eq_zero h := by
    change o.size = 0 at h
    change (if o.size ≤ v.selected then o.size - 1 else v.selected) = 0
    split <;> omega
  folds_spec i hi := by
    have hkept := (Folds.contains_filter.1 hi).2
    rw [Bool.and_eq_true, decide_eq_true_eq] at hkept
    exact hkept

theorem replaceOutline_spec (v : View) (o : Outline) :
    (v.replaceOutline o).Sound ∧ (v.replaceOutline o).outline = o ∧
      (v.replaceOutline o).root = v.root ∧ (v.replaceOutline o).cursor = v.cursor := by
  have hsound := sound_carryOver v o
  cases h : v.cursor with
  | none =>
    rw [replaceOutline_of_none h]
    exact ⟨hsound, rfl, rfl, h⟩
  | some cursor =>
    rw [replaceOutline_of_some h]
    have hkeeps := keeps_follow (v.carryOver o) cursor
    exact ⟨hkeeps.sound hsound, hkeeps.outline_eq, hkeeps.root_eq, cursor_follow _ cursor⟩

/-! ## Runs -/

/-- What can happen to a view. -/
inductive Action where
  | press (k : Key) (now : Nat)
  | follow (cursor : Position)
  | replace (o : Outline)

namespace Action

/-- Applies an action to a view and its schedule. -/
def apply (a : Action) (s : View × Schedule) : View × Schedule :=
  match a with
  | press k now => ((s.1.press s.2 now k).view, (s.1.press s.2 now k).schedule)
  | follow cursor => (s.1.follow cursor, s.2)
  | replace o => (s.1.replaceOutline o, s.2)

/-- What an action that leads from `s` to `s'` leaves as it is. -/
structure Respects (a : Action) (s s' : View × Schedule) : Prop where
  outline_eq : (∀ o, a ≠ replace o) → s'.1.outline = s.1.outline
  replaced : ∀ o, a = replace o → s'.1.outline = o
  root_eq : s'.1.root = s.1.root
  shown : (∀ o, a ≠ replace o) → s.1.IsShown → s'.1.IsShown
  cursor_eq : (∀ k now, a = press k now → k.code ≠ .enter) → (∀ cursor, a ≠ follow cursor) →
    s'.1.cursor = s.1.cursor
  schedule_eq : (∀ k now, a = press k now → k.code ≠ .char 'r') → s'.2 = s.2

theorem respects_apply (a : Action) (s : View × Schedule) : a.Respects s (a.apply s) := by
  cases a with
  | press k now =>
    have hkeeps : Keeps s.1 (s.1.press s.2 now k).view := keeps_press
    exact ⟨fun _ => hkeeps.outline_eq, nofun, hkeeps.root_eq, fun _ => hkeeps.shown,
      fun h _ => cursor_press (h k now rfl), fun h => schedule_press (h k now rfl)⟩
  | follow cursor =>
    have hkeeps := keeps_follow s.1 cursor
    exact ⟨fun _ => hkeeps.outline_eq, nofun, hkeeps.root_eq, fun _ => hkeeps.shown,
      fun _ h => absurd rfl (h cursor), fun _ => rfl⟩
  | replace o =>
    obtain ⟨-, houtline, hroot, hcursor⟩ := replaceOutline_spec s.1 o
    refine ⟨fun h => absurd rfl (h o), fun o' ho => ?_, hroot, fun h => absurd rfl (h o),
      fun _ _ => hcursor, fun _ => rfl⟩
    cases ho
    exact houtline

theorem sound_apply (a : Action) {s : View × Schedule} (h : s.1.Sound) : (a.apply s).1.Sound := by
  cases a with
  | press k now => exact keeps_press.sound h
  | follow cursor => exact (keeps_follow s.1 cursor).sound h
  | replace o => exact (replaceOutline_spec s.1 o).1

/-- Applies actions one after another. -/
def run (s : View × Schedule) (as : List Action) : View × Schedule :=
  as.foldl (fun s a => a.apply s) s

theorem sound_run {s : View × Schedule} (h : s.1.Sound) (as : List Action) :
    (run s as).1.Sound := by
  induction as generalizing s with
  | nil => exact h
  | cons a as ih => exact ih (sound_apply a h)

/-- Whatever is done to a view that starts with everything open, it stays sound,
and each thing done leaves alone what is not its own. -/
theorem run_start_spec (o : Outline) (root : SourceId) (schedule : Schedule) (as : List Action) :
    (run (View.start o root, schedule) as).1.Sound ∧
    ∀ a : Action, a.Respects (run (View.start o root, schedule) as)
      (a.apply (run (View.start o root, schedule) as)) :=
  ⟨sound_run (start_sound o root) as, fun a => respects_apply a _⟩

end Action
end View
end Sectioning
