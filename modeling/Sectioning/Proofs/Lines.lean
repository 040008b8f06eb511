/-
The lines of a drawn outline.

A block that leads down asks for one in the next line to go on with, and a block that leads
up asks for one in the line above to come from.  The blocks in front of a heading are found
from the outline alone, so it has to be shown that they still fit together when folds have
taken lines away (`lines_unbroken`).

Depths decide what a block is.  At the place `k` a line passes below a heading if a later one
is of depth `k + 1` and all between are deeper than `k` (`Continues`, `leadsDown_lead_iff`).
Headings under a fold are deeper than the folded one, and so they do not matter.

A drawing gives the depths, by the length of its texts, and with them the parents.  So two
outlines are drawn alike exactly if they have the same parents (`leads_eq_iff_parents_eq`).
-/
import Sectioning.Outline.Drawing
import Sectioning.Proofs.Walks

namespace Sectioning

namespace Block

/-! ## Blocks in a text -/

/-- The four characters of the block `k` of a text. -/
def textAt (s : String) (k : Nat) : String :=
  String.ofList ((s.toList.drop (4 * k)).take 4)

/-- The text of a block with a line that goes on below. -/
def LeadsDown (s : String) : Prop :=
  s = "│   " ∨ s = "├── "

/-- The text of a block with a line that comes from above. -/
def LeadsUp (s : String) : Prop :=
  LeadsDown s ∨ s = "└── "

theorem length_render (b : Block) : b.render.toList.length = 4 := by
  cases b <;> decide

theorem length_join_render (bs : List Block) :
    (String.join (bs.map render)).length = 4 * bs.length := by
  induction bs with
  | nil => rfl
  | cons b bs ih =>
    rw [List.map_cons, String.join_cons, String.length_append, ih, ← String.length_toList,
      length_render, List.length_cons]
    omega

theorem textAt_join_render (bs : List Block) (k : Nat) :
    textAt (String.join (bs.map render)) k = bs[k]?.elim "" render := by
  induction bs generalizing k with
  | nil => simp [textAt]
  | cons b bs ih =>
    have hlength := b.length_render
    rw [textAt, List.map_cons, String.join_cons, String.toList_append]
    cases k with
    | zero =>
      rw [Nat.mul_zero, List.drop_zero, List.take_left' hlength, String.ofList_toList]
      rfl
    | succ k =>
      rw [show 4 * (k + 1) = b.render.toList.length + 4 * k by omega,
        List.drop_length_add_append, List.getElem?_cons_succ, ← ih, textAt]

theorem leadsDown_elim_iff {x : Option Block} :
    LeadsDown (x.elim "" render) ↔ x = some guide ∨ x = some branch := by
  rcases x with _ | b
  · simp [LeadsDown]
  · cases b <;> simp [LeadsDown, render]

theorem leadsUp_elim_iff {x : Option Block} :
    LeadsUp (x.elim "" render) ↔ LeadsDown (x.elim "" render) ∨ x = some corner := by
  rcases x with _ | b
  · simp [LeadsUp]
  · cases b <;> simp [LeadsUp, render]

/-- What a block turns into in the lines of the headings under its own. -/
def pass : Block → Block
  | guide | branch => guide
  | blank | corner => blank

theorem pass_pass (b : Block) : b.pass.pass = b.pass := by
  cases b <;> rfl

theorem map_pass_iff {x : Option Block} :
    x.map pass = some guide ∨ x.map pass = some branch ↔ x = some guide ∨ x = some branch := by
  rcases x with _ | b
  · simp
  · cases b <;> simp [pass]

end Block

namespace Outline

variable {o o' : Outline} {i k p : Nat}

/-! ## The blocks of a heading -/

/-- The last block in front of a heading. -/
def ownBlock (o : Outline) (i : Nat) : Block :=
  if (o.nextSibling? i).isSome then .branch else .corner

theorem blocks_of_none (h : o.parent? i = none) : o.blocks i = [] := by
  rw [blocks, h]
  rfl

/-- The blocks of the headings above are passed on, that of the outermost one excepted. -/
theorem blocks_eq (h : o.parent? i = some p) : o.blocks i =
    (o.ancestors i).dropLast.reverse.map (fun a => (o.ownBlock a).pass) ++ [o.ownBlock i] := by
  rw [blocks, h, Option.isNone_some, if_neg Bool.false_ne_true, ← ownBlock]
  congr 1
  apply List.map_congr_left
  intro a _
  rw [ownBlock]
  split <;> rfl

theorem blocks_of_some (h : o.parent? i = some p) :
    o.blocks i = (o.blocks p).map Block.pass ++ [o.ownBlock i] := by
  rw [blocks_eq h, ancestors_of_some h]
  congr 1
  cases hp : o.parent? p with
  | none =>
    rw [blocks_of_none hp, ancestors_of_none hp]
    rfl
  | some q =>
    rw [blocks_eq hp, ancestors_of_some hp, List.dropLast_cons_cons, List.reverse_cons,
      List.map_append, List.map_append, List.map_map]
    congr 1
    apply List.map_congr_left
    intro a _
    exact (o.ownBlock a).pass_pass.symm

theorem length_blocks (o : Outline) (i : Nat) : (o.blocks i).length = o.depth i := by
  induction i using Nat.strongRecOn with
  | ind i ih =>
    cases hp : o.parent? i with
    | none =>
      rw [blocks_of_none hp, depth_of_none hp]
      rfl
    | some p =>
      rw [blocks_of_some hp, depth_of_some hp, List.length_append, List.length_map,
        ih p (parent?_lt hp)]
      rfl

theorem length_lead (o : Outline) (i : Nat) : (o.lead i).length = 4 * o.depth i := by
  rw [lead, Block.length_join_render, length_blocks]

/-! ## Lines below a heading -/

/-- Below the heading `i` the line at the place `k` goes on: it leads to a later heading of
depth `k + 1`, and all on the way are deeper than `k`. -/
def Continues (o : Outline) (i k : Nat) : Prop :=
  k < o.depth i ∧ ∃ w, i < w ∧ o.depth w = k + 1 ∧ ∀ m, i < m → m ≤ w → k < o.depth m

theorem isSome_nextSibling?_iff (hp : o.parent? i = some p) :
    (o.nextSibling? i).isSome = true ↔ ∃ w, i < w ∧ o.parent? w = some p := by
  rw [Option.isSome_iff_exists]
  simp only [nextSibling?_eq_some_iff (lt_size_of_parent? hp), hp]
  constructor
  · rintro ⟨w, hw, -⟩
    exact ⟨w, hw.1, hw.2.2⟩
  · rintro ⟨w, hiw, hw⟩
    have hlater : ∃ j, i < j ∧ j < o.size ∧ o.parent? j = some p :=
      ⟨w, hiw, lt_size_of_parent? hw, hw⟩
    exact ⟨Nat.find hlater, Nat.find_spec hlater, fun j hj => Nat.find_min' hlater hj⟩

/-- At the place of its own block the line of a heading leads to the next one with the same
parent, and at the places before it does what it does below the parent. -/
theorem continues_iff (hp : o.parent? i = some p) :
    o.Continues i k ↔ o.Continues p k ∨ k = o.depth p ∧ (o.nextSibling? i).isSome = true := by
  obtain ⟨hmem, hdepth⟩ := parent?_eq_some_iff_depth.1 hp
  obtain ⟨hpi, hbelow⟩ := mem_ancestors_iff_depth.1 hmem
  rw [isSome_nextSibling?_iff hp]
  constructor
  · rintro ⟨hk, w, hiw, hw, hdeeper⟩
    have hall : ∀ m, p < m → m ≤ w → o.depth p < o.depth m ∨ k < o.depth m := by
      intro m hpm hmw
      rcases Nat.lt_or_ge i m with him | hmi
      · exact Or.inr (hdeeper m him hmw)
      · exact Or.inl (hbelow m hpm hmi)
    rcases Nat.lt_or_eq_of_le (show k ≤ o.depth p by omega) with hlt | rfl
    · refine Or.inl ⟨hlt, w, by omega, hw, fun m hpm hmw => ?_⟩
      have hm := hall m hpm hmw
      omega
    · refine Or.inr ⟨rfl, w, hiw, parent?_eq_some_iff_depth.2 ⟨?_, hw⟩⟩
      exact mem_ancestors_iff_depth.2 ⟨by omega, fun m hpm hmw => (hall m hpm hmw).elim id id⟩
  · rintro (⟨hk, w, hpw, hw, hdeeper⟩ | ⟨rfl, w, hiw, hw⟩)
    · refine ⟨by omega, w, ?_, hw, fun m him hmw => hdeeper m (by omega) hmw⟩
      -- all that is under `p` up to `i` is too deep to be `w`
      by_contra hwi
      have hwdeep := hbelow w hpw (by omega)
      omega
    · obtain ⟨hpw, hwdepth⟩ := parent?_eq_some_iff_depth.1 hw
      refine ⟨by omega, w, hiw, hwdepth, fun m him hmw => ?_⟩
      exact (mem_ancestors_iff_depth.1 hpw).2 m (by omega) hmw

theorem not_continues_of_none (h : o.parent? i = none) : ¬ o.Continues i k := by
  rintro ⟨hk, -⟩
  rw [depth_of_none h] at hk
  omega

theorem getElem?_blocks_of_lt (hp : o.parent? i = some p) (hk : k < o.depth p) :
    (o.blocks i)[k]? = (o.blocks p)[k]?.map Block.pass := by
  rw [blocks_of_some hp, List.getElem?_append_left, List.getElem?_map]
  rw [List.length_map, length_blocks]
  exact hk

theorem getElem?_blocks_depth (hp : o.parent? i = some p) :
    (o.blocks i)[o.depth p]? = some (o.ownBlock i) := by
  rw [blocks_of_some hp, ← length_blocks, ← List.length_map Block.pass,
    List.getElem?_concat_length]

theorem getElem?_blocks_of_le (h : o.depth i ≤ k) : (o.blocks i)[k]? = none := by
  rw [List.getElem?_eq_none_iff, length_blocks]
  exact h

theorem getElem?_blocks_iff :
    (o.blocks i)[k]? = some .guide ∨ (o.blocks i)[k]? = some .branch ↔ o.Continues i k := by
  induction i using Nat.strongRecOn with
  | ind i ih =>
    cases hp : o.parent? i with
    | none =>
      rw [blocks_of_none hp]
      simpa using not_continues_of_none hp
    | some p =>
      rw [continues_iff hp, ← ih p (parent?_lt hp)]
      rcases Nat.lt_trichotomy k (o.depth p) with hk | rfl | hk
      · rw [getElem?_blocks_of_lt hp hk, Block.map_pass_iff]
        exact (or_iff_left fun h => Nat.ne_of_lt hk h.1).symm
      · rw [getElem?_blocks_depth hp, getElem?_blocks_of_le (i := p) (Nat.le_refl _), ownBlock]
        split
        · next h => simp [h]
        · next h => simp [h]
      · have hdepth := depth_of_some hp
        rw [getElem?_blocks_of_le (i := p) (Nat.le_of_lt hk), getElem?_blocks_of_le (by omega)]
        exact (or_iff_left fun h => Nat.ne_of_gt hk h.1).symm

theorem eq_depth_of_getElem?_corner (h : (o.blocks i)[k]? = some .corner) : k + 1 = o.depth i := by
  cases hp : o.parent? i with
  | none =>
    rw [blocks_of_none hp] at h
    cases h
  | some p =>
    have hdepth := depth_of_some hp
    rcases Nat.lt_trichotomy k (o.depth p) with hk | rfl | hk
    · rw [getElem?_blocks_of_lt hp hk, Option.map_eq_some_iff] at h
      obtain ⟨b, -, hb⟩ := h
      cases b <;> cases hb
    · exact hdepth.symm
    · rw [getElem?_blocks_of_le (by omega)] at h
      cases h

theorem getElem?_blocks_of_depth (h : k + 1 = o.depth i) :
    (o.blocks i)[k]? = some .branch ∨ (o.blocks i)[k]? = some .corner := by
  obtain ⟨p, hp⟩ := exists_parent? (show 0 < o.depth i by omega)
  have hdepth := depth_of_some hp
  rw [show k = o.depth p by omega, getElem?_blocks_depth hp, ownBlock]
  split
  · exact Or.inl rfl
  · exact Or.inr rfl

theorem leadsDown_lead_iff : Block.LeadsDown (Block.textAt (o.lead i) k) ↔ o.Continues i k := by
  rw [lead, Block.textAt_join_render, Block.leadsDown_elim_iff, getElem?_blocks_iff]

theorem leadsUp_lead_iff :
    Block.LeadsUp (Block.textAt (o.lead i) k) ↔ o.Continues i k ∨ k + 1 = o.depth i := by
  rw [← leadsDown_lead_iff, lead, Block.textAt_join_render, Block.leadsUp_elim_iff]
  constructor
  · exact Or.imp_right eq_depth_of_getElem?_corner
  · rintro (h | h)
    · exact Or.inl h
    · rw [Block.leadsDown_elim_iff]
      rcases getElem?_blocks_of_depth h with h | h
      · exact Or.inl (Or.inr h)
      · exact Or.inr h

/-! ## Outlines drawn alike -/

theorem children_congr (h : ∀ i, o.parent? i = o'.parent? i) (i : Nat) :
    o.children i = o'.children i := by
  refine (o.sorted_under _).eq_of_mem_iff (o'.sorted_under _) fun k => ?_
  show k ∈ o.children i ↔ k ∈ o'.children i
  rw [mem_children_iff, mem_children_iff, h]

theorem lead_congr (h : ∀ i, o.parent? i = o'.parent? i) (i : Nat) : o.lead i = o'.lead i := by
  suffices hblocks : o.blocks i = o'.blocks i by rw [lead, lead, hblocks]
  induction i using Nat.strongRecOn with
  | ind i ih =>
    cases hp : o.parent? i with
    | none => rw [blocks_of_none hp, blocks_of_none (h i ▸ hp)]
    | some p =>
      have hp' := h i ▸ hp
      have hsiblings : o.siblings i = o'.siblings i := by
        rw [siblings, siblings, hp, hp']
        exact children_congr h p
      rw [blocks_of_some hp, blocks_of_some hp', ih p (parent?_lt hp), ownBlock, ownBlock,
        nextSibling?, nextSibling?, hsiblings]

theorem length_leads (o : Outline) : o.leads.length = o.size := by
  rw [leads, List.length_map, List.length_range]

theorem size_eq_of_leads_eq (h : o.leads = o'.leads) : o.size = o'.size := by
  rw [← length_leads, h, length_leads]

theorem map_length_leads (o : Outline) :
    o.leads.map String.length = (List.range o.size).map fun i => 4 * o.depth i := by
  rw [leads, List.map_map]
  apply List.map_congr_left
  intro i _
  exact o.length_lead i

theorem depth_congr (h : o.leads = o'.leads) (i : Nat) : o.depth i = o'.depth i := by
  have hsize := size_eq_of_leads_eq h
  rcases Nat.lt_or_ge i o.size with hi | hi
  · have hlead : o.lead i = o'.lead i :=
      List.map_inj_left.1 (h.trans (by rw [leads, hsize])) i (List.mem_range.2 hi)
    have hlength := congrArg String.length hlead
    rw [length_lead, length_lead] at hlength
    omega
  · rw [depth_of_none (parent?_of_le hi), depth_of_none (parent?_of_le (hsize ▸ hi))]

theorem getElem?_parents (hi : i < o.size) : o.parents[i]? = some (o.parent? i) := by
  have hlt : i < o.parents.length := o.length_parents ▸ hi
  rw [parent?, List.getElem?_eq_getElem hlt]
  rfl

theorem parents_eq_iff : o.parents = o'.parents ↔
    o.size = o'.size ∧ ∀ i, o.parent? i = o'.parent? i := by
  constructor
  · intro h
    refine ⟨?_, fun i => ?_⟩
    · rw [← length_parents, h, length_parents]
    · rw [parent?, h, parent?]
  · rintro ⟨hsize, h⟩
    apply List.ext_getElem?
    intro i
    rcases Nat.lt_or_ge i o.size with hi | hi
    · rw [getElem?_parents hi, getElem?_parents (hsize ▸ hi), h]
    · rw [List.getElem?_eq_none (o.length_parents ▸ hi),
        List.getElem?_eq_none (o'.length_parents ▸ hsize ▸ hi)]

theorem leads_eq_iff_parents_eq : o.leads = o'.leads ↔ o.parents = o'.parents := by
  rw [parents_eq_iff]
  constructor
  · intro h
    exact ⟨size_eq_of_leads_eq h, parent?_congr_depth (depth_congr h)⟩
  · rintro ⟨hsize, h⟩
    rw [leads, leads, hsize]
    exact List.map_congr_left fun i _ => lead_congr h i

/-- A drawing determines the tree, and the tree its drawing. -/
theorem leads_determine_tree (o o' : Outline) :
    o.leads.map String.length = (List.range o.size).map (fun i => 4 * o.depth i) ∧
    (o.leads = o'.leads →
      (∀ i, o.parent? i = o'.parent? i) ∧ (∀ i, o.children i = o'.children i) ∧
      o.roots = o'.roots) ∧
    (o.parents = o'.parents → o.leads = o'.leads) ∧
    ((∀ i, o.parent? i = o'.parent? i) → ∀ i, o.lead i = o'.lead i) := by
  refine ⟨o.map_length_leads, fun h => ?_, leads_eq_iff_parents_eq.2, lead_congr⟩
  have hparents := leads_eq_iff_parents_eq.1 h
  have hparent := (parents_eq_iff.1 hparents).2
  refine ⟨hparent, children_congr hparent, ?_⟩
  rw [roots, roots, under_eq, under_eq, hparents]

/-- Two parts again, with levels that are further apart and uneven sections. -/
def regraded : Outline :=
  .ofHeadings [⟨"a", 2, ⟨0, 0⟩, ⟨"main.tex"⟩⟩, ⟨"b", 7, ⟨1, 0⟩, ⟨"main.tex"⟩⟩,
    ⟨"c", 9, ⟨2, 0⟩, ⟨"main.tex"⟩⟩, ⟨"d", 6, ⟨3, 0⟩, ⟨"main.tex"⟩⟩,
    ⟨"e", 0, ⟨4, 0⟩, ⟨"main.tex"⟩⟩]

theorem leads_regraded :
    regraded.leads = ["", "├── ", "│   └── ", "└── ", ""] ∧
    regraded.leads = View.twoParts.outline.leads ∧
    regraded.children 0 = View.twoParts.outline.children 0 ∧
    regraded.roots = View.twoParts.outline.roots := by
  have hleads : regraded.leads = View.twoParts.outline.leads := by decide +kernel
  obtain ⟨-, htree, -, -⟩ := leads_determine_tree regraded View.twoParts.outline
  obtain ⟨-, hchildren, hroots⟩ := htree hleads
  exact ⟨by decide +kernel, hleads, hchildren 0, hroots⟩

end Outline

namespace View

variable {v : View} {before after rest : List Nat} {a k m u w : Nat}

/-! ## Consecutive lines -/

theorem isHidden_of_mem_ancestors (ha : a ∈ v.outline.ancestors m) (h : v.isHidden a = true) :
    v.isHidden m = true := by
  rw [isHidden, List.any_eq_true] at h ⊢
  obtain ⟨b, hb, hfold⟩ := h
  exact ⟨b, Outline.mem_ancestors_trans hb ha, hfold⟩

/-- If nothing is shown from a heading on, up to `m`, then `m` is under this heading. -/
theorem mem_ancestors_of_hidden (hu : v.isHidden u = false) (hum : u < m)
    (hhidden : ∀ n, u < n → n ≤ m → v.isHidden n = true) : u ∈ v.outline.ancestors m := by
  induction m using Nat.strongRecOn with
  | ind m ih =>
    have hm := hhidden m hum (Nat.le_refl m)
    rw [isHidden, List.any_eq_true] at hm
    obtain ⟨a, ha, hfold⟩ := hm
    have ham := Outline.lt_of_mem_ancestors ha
    rcases Nat.lt_trichotomy a u with hau | rfl | hua
    · -- a fold above `u` would hide `u`
      have habove := Outline.mem_ancestors_of_le ha hau (Nat.le_of_lt hum)
      exact absurd hfold (isHidden_eq_false_iff.1 hu a habove)
    · exact ha
    · have hmem := ih a ham hua fun n hun hna => hhidden n hun (by omega)
      exact Outline.mem_ancestors_trans hmem ha

/-- A line that goes on below a shown heading leads to one that is shown as well. -/
theorem mem_visible_of_depth (hu : v.isHidden u = false) (hk : k < v.outline.depth u)
    (huw : u < w) (hw : v.outline.depth w = k + 1)
    (hdeeper : ∀ m, u < m → m ≤ w → k < v.outline.depth m) : w ∈ v.visible := by
  obtain ⟨p, hp⟩ := Outline.exists_parent? (show 0 < v.outline.depth w by omega)
  obtain ⟨hmem, hdepth⟩ := Outline.parent?_eq_some_iff_depth.1 hp
  have hpu : p < u := by
    by_contra hle
    rcases Nat.eq_or_lt_of_le (Nat.le_of_not_lt hle) with rfl | hup
    · omega
    · have hdeep := hdeeper p hup (Nat.le_of_lt (Outline.parent?_lt hp))
      omega
  refine mem_visible_iff.2 ⟨Outline.lt_size_of_parent? hp, isHidden_eq_false_iff.2 ?_⟩
  intro a ha
  -- what is above `w` is above `u`, since the parent of `w` is
  have hap : a ≤ p := Outline.le_of_mem_lineage (Outline.ancestors_eq_lineage hp ▸ ha)
  exact isHidden_eq_false_iff.1 hu a (Outline.mem_ancestors_of_le ha (by omega) (Nat.le_of_lt huw))

/-- The heading `w` is drawn in the line below that of `u`. -/
structure DrawnBelow (v : View) (w u : Nat) : Prop where
  lt : u < w
  above : v.isHidden u = false
  below : v.isHidden w = false
  between : ∀ n, u < n → n < w → v.isHidden n = true

theorem drawnBelow_of_visible (h : v.visible = before ++ u :: w :: rest) : v.DrawnBelow w u := by
  have hu : u ∈ v.visible := h ▸ List.mem_append_cons_self
  have hw : w ∈ v.visible := by
    rw [h]
    exact List.mem_append_right _ (List.mem_cons_of_mem _ List.mem_cons_self)
  have hafter := (visible_split h).2
  have hmem : ∀ n, n ∈ w :: rest ↔ n ∈ v.visible ∧ u < n := by
    intro n
    rw [← hafter, List.mem_filter, decide_eq_true_eq]
  have hsorted : (w :: rest).Pairwise (· < ·) := hafter ▸ v.pairwise_visible.filter _
  refine ⟨((hmem w).1 List.mem_cons_self).2, (mem_visible_iff.1 hu).2, (mem_visible_iff.1 hw).2, ?_⟩
  intro n hun hnw
  by_contra hshown
  have hsize := (mem_visible_iff.1 hw).1
  have hn := (hmem n).2 ⟨mem_visible_iff.2 ⟨by omega, Bool.eq_false_of_not_eq_true hshown⟩, hun⟩
  rcases List.mem_cons.1 hn with rfl | hn
  · omega
  · have hwn := (List.pairwise_cons.1 hsorted).1 n hn
    omega

namespace DrawnBelow

theorem depth_lt (h : v.DrawnBelow w u) (hum : u < m) (hmw : m < w) :
    v.outline.depth u < v.outline.depth m := by
  apply Outline.depth_lt_of_mem_ancestors
  exact mem_ancestors_of_hidden h.above hum fun n hun hnm => h.between n hun (by omega)

/-- A deeper line right below a heading is that of a child. -/
theorem parent?_eq (h : v.DrawnBelow w u) (hdepth : v.outline.depth u < v.outline.depth w) :
    v.outline.parent? w = some u := by
  have hmem : u ∈ v.outline.ancestors w := by
    refine Outline.mem_ancestors_iff_depth.2 ⟨h.lt, fun m hum hmw => ?_⟩
    rcases Nat.lt_or_eq_of_le hmw with hlt | rfl
    · exact h.depth_lt hum hlt
    · exact hdepth
  obtain ⟨c, hchild, hc⟩ := Outline.exists_child hmem
  have hparent := Outline.parent?_of_child hchild
  rcases Outline.mem_lineage.1 hc with rfl | hc
  · exact hparent
  · have hhidden := h.between c (Outline.parent?_lt hparent) (Outline.lt_of_mem_ancestors hc)
    have hw := isHidden_of_mem_ancestors hc hhidden
    rw [h.below] at hw
    cases hw

/-- What leads up from a line continues the line above it, or begins there with a child. -/
theorem continues_or (h : v.DrawnBelow w u)
    (hup : v.outline.Continues w k ∨ k + 1 = v.outline.depth w) :
    v.outline.Continues u k ∨ v.outline.parent? w = some u ∧ k = v.outline.depth u := by
  have hkw : k < v.outline.depth w := by
    rcases hup with hup | hup
    · exact hup.1
    · omega
  rcases Nat.lt_or_ge k (v.outline.depth u) with hku | huk
  · left
    have hdeeper : ∀ m, u < m → m ≤ w → k < v.outline.depth m := by
      intro m hum hmw
      rcases Nat.lt_or_eq_of_le hmw with hlt | rfl
      · exact Nat.lt_trans hku (h.depth_lt hum hlt)
      · exact hkw
    rcases hup with ⟨-, x, hwx, hx, hrest⟩ | hup
    · have huw := h.lt
      refine ⟨hku, x, by omega, hx, fun m hum hmx => ?_⟩
      rcases Nat.lt_or_ge w m with hwm | hmw
      · exact hrest m hwm hmx
      · exact hdeeper m hum hmw
    · exact ⟨hku, w, h.lt, hup.symm, hdeeper⟩
  · right
    have hparent := h.parent?_eq (by omega)
    have hdepth := Outline.depth_of_some hparent
    exact ⟨hparent, by omega⟩

/-- A line that goes on reaches the next one. -/
theorem continues (h : v.DrawnBelow w u) (hdown : v.outline.Continues u k) :
    v.outline.Continues w k ∨ k + 1 = v.outline.depth w := by
  obtain ⟨hk, x, hux, hx, hdeeper⟩ := hdown
  have hshown := mem_visible_of_depth h.above hk hux hx hdeeper
  have hwx : w ≤ x := by
    by_contra hlt
    have hhidden := h.between x hux (by omega)
    rw [(mem_visible_iff.1 hshown).2] at hhidden
    cases hhidden
  rcases Nat.lt_or_eq_of_le hwx with hlt | rfl
  · have huw := h.lt
    exact Or.inl ⟨hdeeper w huw hwx, x, hlt, hx, fun m hwm => hdeeper m (by omega)⟩
  · exact Or.inr hx.symm

end DrawnBelow

theorem after_ne_nil_of_continues (h : v.visible = before ++ u :: after)
    (hdown : v.outline.Continues u k) : after ≠ [] := by
  obtain ⟨hk, x, hux, hx, hdeeper⟩ := hdown
  have hu : u ∈ v.visible := h ▸ List.mem_append_cons_self
  have hshown := mem_visible_of_depth (mem_visible_iff.1 hu).2 hk hux hx hdeeper
  apply List.ne_nil_of_mem (a := x)
  rw [← (visible_split h).2]
  exact List.mem_filter.2 ⟨hshown, decide_eq_true hux⟩

/-- Whatever is folded, the lines of the drawing neither break off nor begin in the middle:
what leads down is gone on with in the next line, and what leads up comes from the line above
or begins there, at the parent.  A heading with a parent has such a line of its own. -/
theorem lines_unbroken (h : v.visible = before ++ u :: after) (k : Nat) :
    (Block.LeadsDown (Block.textAt (v.outline.lead u) k) →
      ∃ w rest, after = w :: rest ∧ Block.LeadsUp (Block.textAt (v.outline.lead w) k)) ∧
    (∀ w rest, after = w :: rest → Block.LeadsUp (Block.textAt (v.outline.lead w) k) →
      Block.LeadsDown (Block.textAt (v.outline.lead u) k) ∨
      v.outline.parent? w = some u ∧ k = v.outline.depth u ∧
        (v.outline.lead w).length = 4 * (k + 1)) ∧
    (after = [] → ¬ Block.LeadsDown (Block.textAt (v.outline.lead u) k)) ∧
    (∀ p, v.outline.parent? u = some p →
      Block.LeadsUp (Block.textAt (v.outline.lead u) (v.outline.depth p))) := by
  simp only [Outline.leadsDown_lead_iff, Outline.leadsUp_lead_iff]
  refine ⟨fun hdown => ?_, ?_, fun hlast hdown => after_ne_nil_of_continues h hdown hlast, ?_⟩
  · obtain ⟨w, rest, rfl⟩ := List.exists_cons_of_ne_nil (after_ne_nil_of_continues h hdown)
    exact ⟨w, rest, rfl, (drawnBelow_of_visible h).continues hdown⟩
  · rintro w rest rfl hup
    refine ((drawnBelow_of_visible h).continues_or hup).imp_right ?_
    rintro ⟨hparent, rfl⟩
    refine ⟨hparent, rfl, ?_⟩
    rw [Outline.length_lead, Outline.depth_of_some hparent]
  · intro p hp
    exact Or.inr (Outline.depth_of_some hp).symm

theorem lines_twoParts :
    twoParts.toggle.visible = [0] ++ 1 :: [3, 4] ∧
    Block.LeadsDown (Block.textAt (twoParts.toggle.outline.lead 1) 0) ∧
    Block.LeadsUp (Block.textAt (twoParts.toggle.outline.lead 3) 0) := by
  have hvisible : twoParts.toggle.visible = [0] ++ 1 :: [3, 4] := by decide +kernel
  have hdown : Block.LeadsDown (Block.textAt (twoParts.toggle.outline.lead 1) 0) :=
    Or.inr (by decide +kernel)
  obtain ⟨w, rest, hafter, hup⟩ := (lines_unbroken hvisible 0).1 hdown
  cases hafter
  exact ⟨hvisible, hdown, hup⟩

end View
end Sectioning
