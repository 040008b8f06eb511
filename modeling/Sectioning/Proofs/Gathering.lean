/-
What an expansion gathers, without a bound on the nesting.

`Gathers` has one rule for each thing that can happen to an entry: it is
rejected, it is a heading, or it is an inclusion that leads nowhere, is cut or is
entered.  The bounded expansion gives exactly the builds that can be derived
(`exists_expand_eq_ok_iff`), so what holds of every build is shown by induction on
a derivation.

Two facts about every build follow here.  The documents read so far stay where
they are and none is listed twice (`Gathers.prefix_sources`,
`Gathers.nodup_sources`).  A heading is never that of a document on the chain
(`Gathers.source_notMem_chain`), and so the headings that carry the identity of the
root are those that stand in the root (`expand_eq_part`).
-/
import Sectioning.Proofs.Expansion

namespace Sectioning

/-! ## Headings and their documents -/

namespace Occurrence

theorem source_of_entry {s : Source} {o : Occurrence} {h : Heading}
    (he : o.entry s = .ok (.heading h)) : h.source = s.id := by
  unfold entry at he
  split at he
  · cases he
  · split at he
    · cases he
    · unfold entryOf at he
      split at he
      · cases he
      · split at he
        · cases he
          rfl
        · cases he

end Occurrence

namespace Entry

def heading? : Entry → Option Heading
  | heading h => some h
  | _ => none

/-- All headings among the entries carry the identity `source`. -/
def Tagged (source : SourceId) (es : List Entry) : Prop :=
  ∀ h, .heading h ∈ es → h.source = source

theorem Tagged.tail {source : SourceId} {e : Entry} {es : List Entry}
    (h : Tagged source (e :: es)) : Tagged source es :=
  fun hd hhd => h hd (List.mem_cons_of_mem e hhd)

end Entry

namespace Source

theorem tagged_entries {s : Source} {es : List Entry} (h : s.entries = .ok es) :
    Entry.Tagged s.id es := by
  unfold entries at h
  generalize Occurrence.scan s.buffer = os at h
  induction os generalizing es with
  | nil =>
    cases h
    intro hd hhd
    cases hhd
  | cons o os ih =>
    rw [List.mapM_cons] at h
    cases he : o.entry s with
    | error e =>
      rw [he] at h
      cases h
    | ok e =>
      cases hrest : os.mapM (Occurrence.entry s) with
      | error e =>
        rw [he, hrest] at h
        cases h
      | ok rest =>
        rw [he, hrest] at h
        cases h
        intro hd hhd
        rcases List.mem_cons.1 hhd with rfl | hhd
        · exact Occurrence.source_of_entry he
        · exact ih hrest hd hhd

end Source

namespace Buffer

theorem tagged_entries (b : Buffer) : Entry.Tagged b.id b.entries :=
  Source.tagged_entries (Source.entries_ofBuffer b)

end Buffer

/-! ## Documents read so far -/

namespace SourceId

theorem mem_note {seen : List SourceId} {id id' : SourceId} :
    id' ∈ note seen id ↔ id' ∈ seen ∨ id' = id := by
  unfold note
  split
  · next h =>
    constructor
    · exact Or.inl
    · rintro (h' | rfl)
      · exact h'
      · exact h
  · rw [List.mem_append, List.mem_singleton]

theorem prefix_note (seen : List SourceId) (id : SourceId) : seen <+: note seen id := by
  unfold note
  split
  · exact List.prefix_refl seen
  · exact List.prefix_append seen [id]

theorem nodup_note {seen : List SourceId} (h : seen.Nodup) (id : SourceId) :
    (note seen id).Nodup := by
  unfold note
  split
  · exact h
  · next hnot => exact List.nodup_append.2 ⟨h, List.nodup_singleton id, by
      rintro x hx y hy rfl
      exact hnot (List.mem_singleton.1 hy ▸ hx)⟩

end SourceId

namespace Build

/-! ## Derivations -/

/-- The entries `es` of the document `source`, into which the chain leads, give
the headings of `build`, and `build` lists the documents read after them if those
of `seen` were read before. -/
inductive Gathers (resolve : Resolver) (follow : Bool) :
    Chain → SourceId → List Entry → List SourceId → Build → Prop
  | nil {chain source seen} : Gathers resolve follow chain source [] seen ⟨[], seen⟩
  | rejected {chain source es seen build}
      (rest : Gathers resolve follow chain source es seen build) :
      Gathers resolve follow chain source (.rejected :: es) seen build
  | heading {chain source h es seen build}
      (rest : Gathers resolve follow chain source es seen build) :
      Gathers resolve follow chain source (.heading h :: es) seen
        ⟨h :: build.headings, build.sources⟩
  | lost {chain source i es seen build} (htarget : target? resolve follow source i = none)
      (rest : Gathers resolve follow chain source es seen build) :
      Gathers resolve follow chain source (.inclusion i :: es) seen build
  | cut {chain source i b es seen build} (htarget : target? resolve follow source i = some b)
      (hmem : b.id ∈ source :: chain)
      (rest : Gathers resolve follow chain source es (SourceId.note seen b.id) build) :
      Gathers resolve follow chain source (.inclusion i :: es) seen build
  | enter {chain source i b es seen inner build}
      (htarget : target? resolve follow source i = some b) (hnew : b.id ∉ source :: chain)
      (inside : Gathers resolve follow (source :: chain) b.id b.entries (SourceId.note seen b.id)
        inner)
      (rest : Gathers resolve follow chain source es inner.sources build) :
      Gathers resolve follow chain source (.inclusion i :: es) seen
        ⟨inner.headings ++ build.headings, build.sources⟩

section

variable {resolve : Resolver} {follow : Bool}
  {visit : Chain → Buffer → List SourceId → Except Stop Build} {chain : Chain}
  {source : SourceId} {i : Inclusion} {b : Buffer} {es : List Entry} {seen : List SourceId}
  {build : Build}

/-- What a bounded collection gives can be derived, if this is so for the
documents that it visits. -/
theorem gathers_of_collect
    (hvisit : ∀ chain b seen build, visit chain b seen = .ok build →
      Gathers resolve follow chain b.id b.entries seen build)
    (h : collect (descend resolve follow visit chain source) es seen = .ok build) :
    Gathers resolve follow chain source es seen build := by
  induction es generalizing seen build with
  | nil =>
    cases h
    exact .nil
  | cons e es ih =>
    cases e with
    | rejected => exact .rejected (ih h)
    | heading hd =>
      rw [collect] at h
      split at h
      · cases h
      · next rest hrest =>
        cases h
        exact .heading (ih hrest)
    | inclusion i =>
      rw [collect] at h
      split at h
      · cases h
      · next inner hinner =>
        split at h
        · cases h
        · next rest hrest =>
          cases h
          cases htarget : target? resolve follow source i with
          | none =>
            rw [descend_of_none htarget] at hinner
            cases hinner
            exact .lost htarget (ih hrest)
          | some b =>
            rw [descend_of_some htarget] at hinner
            split at hinner
            · next hmem =>
              cases hinner
              exact .cut htarget hmem (ih hrest)
            · next hnew => exact .enter htarget hnew (hvisit _ _ _ _ hinner) (ih hrest)

/-- What a bounded expansion gives can be derived. -/
theorem gathers_of_expand {depth : Nat} {s : Source}
    (h : expand resolve follow depth chain s seen = .ok build) :
    ∃ es, s.entries = .ok es ∧ Gathers resolve follow chain s.id es seen build := by
  induction depth generalizing chain s seen build with
  | zero =>
    rw [expand, expandWith] at h
    split at h
    · cases h
    · next es hes => exact ⟨es, hes, gathers_of_collect (fun _ _ _ _ hv => by cases hv) h⟩
  | succ depth ih =>
    rw [expand, expandWith] at h
    split at h
    · cases h
    · next es hes =>
      refine ⟨es, hes, gathers_of_collect (fun chain b seen build hv => ?_) h⟩
      obtain ⟨es', hes', hgathers⟩ := ih hv
      rw [Source.entries_ofBuffer] at hes'
      cases hes'
      exact hgathers

theorem gathers_of_expand_ofBuffer {depth : Nat}
    (h : expand resolve follow depth chain (.ofBuffer b) seen = .ok build) :
    Gathers resolve follow chain b.id b.entries seen build := by
  obtain ⟨es, hes, hgathers⟩ := gathers_of_expand h
  rw [Source.entries_ofBuffer] at hes
  cases hes
  exact hgathers

/-- What can be derived is given by every high enough bound. -/
theorem Gathers.exists_bound (h : Gathers resolve follow chain source es seen build) :
    ∃ n, ∀ depth, n ≤ depth →
      collect (descend resolve follow
        (fun chain b seen => expand resolve follow depth chain (.ofBuffer b) seen) chain source)
        es seen = .ok build := by
  induction h with
  | nil => exact ⟨0, fun _ _ => rfl⟩
  | rejected _ ih => exact ih
  | heading _ ih =>
    obtain ⟨n, hn⟩ := ih
    exact ⟨n, fun depth hle => by rw [collect, hn depth hle]⟩
  | lost htarget _ ih =>
    obtain ⟨n, hn⟩ := ih
    refine ⟨n, fun depth hle => ?_⟩
    rw [collect, descend_of_none htarget]
    simp only [hn depth hle, List.nil_append]
  | cut htarget hmem _ ih =>
    obtain ⟨n, hn⟩ := ih
    refine ⟨n, fun depth hle => ?_⟩
    rw [collect, descend_of_some htarget, if_pos hmem]
    simp only [hn depth hle, List.nil_append]
  | @enter chain source i b _ seen inner _ htarget hnew _ _ ihinside ih =>
    obtain ⟨n, hn⟩ := ihinside
    obtain ⟨m, hm⟩ := ih
    refine ⟨max (n + 1) m, fun depth hle => ?_⟩
    -- the entered document has one level less at its disposal
    obtain ⟨k, rfl⟩ : ∃ k, depth = k + 1 := ⟨depth - 1, by omega⟩
    have hvisit : expand resolve follow (k + 1) (source :: chain) (.ofBuffer b)
        (SourceId.note seen b.id) = .ok inner := by
      rw [expand, expandWith, Source.entries_ofBuffer]
      exact hn k (by omega)
    rw [collect, descend_of_some htarget, if_neg hnew, hvisit]
    simp only [hm (k + 1) (by omega)]

theorem exists_expand_eq_ok_iff {s : Source} :
    (∃ depth, expand resolve follow depth chain s seen = .ok build) ↔
      ∃ es, s.entries = .ok es ∧ Gathers resolve follow chain s.id es seen build := by
  constructor
  · rintro ⟨depth, h⟩
    exact gathers_of_expand h
  · rintro ⟨es, hes, h⟩
    obtain ⟨n, hn⟩ := h.exists_bound
    refine ⟨n + 1, ?_⟩
    rw [expand, expandWith, hes]
    exact hn n (Nat.le_refl n)

/-- Two bounds that are high enough give the same build. -/
theorem expand_eq_ok_of_ne_tooDeep {n m : Nat} {s : Source}
    (h : expand resolve follow n chain s seen = .ok build)
    (hne : expand resolve follow m chain s seen ≠ .error .tooDeep) :
    expand resolve follow m chain s seen = .ok build := by
  have hn : expand resolve follow n chain s seen ≠ .error .tooDeep := by simp [h]
  calc expand resolve follow m chain s seen
      = expand resolve follow (max n m) chain s seen :=
        (expand_eq_of_le (Nat.le_max_right n m) chain s seen hne).symm
    _ = expand resolve follow n chain s seen :=
        expand_eq_of_le (Nat.le_max_left n m) chain s seen hn
    _ = .ok build := h

theorem build_eq_ok_iff_gathers {lib : Library} {root : Source} :
    lib.build follow root = .ok build ↔
      ∃ es, root.entries = .ok es ∧
        Gathers lib.resolve follow [] root.id es [root.id] build := by
  rw [Library.build_eq_ok_iff, ← exists_expand_eq_ok_iff]
  constructor
  · intro h
    exact ⟨_, h⟩
  · rintro ⟨depth, h⟩
    exact expand_eq_ok_of_ne_tooDeep h
      (expand_ne_tooDeep lib follow _ [] root _ (by simp) (by simp) (by simp))

theorem gathers_of_build {lib : Library} {root : Buffer}
    (h : lib.build follow (.ofBuffer root) = .ok build) :
    Gathers lib.resolve follow [] root.id root.entries [root.id] build :=
  gathers_of_expand_ofBuffer (Library.build_eq_ok_iff.1 h)

/-! ## Documents that are listed -/

theorem Gathers.prefix_sources (h : Gathers resolve follow chain source es seen build) :
    seen <+: build.sources := by
  induction h with
  | nil => exact List.prefix_refl _
  | rejected _ ih => exact ih
  | heading _ ih => exact ih
  | lost _ _ ih => exact ih
  | cut _ _ _ ih => exact (SourceId.prefix_note _ _).trans ih
  | enter _ _ _ _ ihinside ih => exact ((SourceId.prefix_note _ _).trans ihinside).trans ih

theorem Gathers.nodup_sources (h : Gathers resolve follow chain source es seen build)
    (hseen : seen.Nodup) : build.sources.Nodup := by
  induction h with
  | nil => exact hseen
  | rejected _ ih => exact ih hseen
  | heading _ ih => exact ih hseen
  | lost _ _ ih => exact ih hseen
  | cut _ _ _ ih => exact ih (SourceId.nodup_note hseen _)
  | enter _ _ _ _ ihinside ih => exact ih (ihinside (SourceId.nodup_note hseen _))

/-! ## Headings of the root -/

/-- While a document is expanded, the documents that include it contribute
nothing. -/
theorem Gathers.source_notMem_chain (h : Gathers resolve follow chain source es seen build)
    (hes : Entry.Tagged source es) (hnew : source ∉ chain) :
    ∀ hd ∈ build.headings, hd.source ∉ chain := by
  induction h with
  | nil => simp
  | rejected _ ih => exact ih hes.tail hnew
  | lost _ _ ih => exact ih hes.tail hnew
  | cut _ _ _ ih => exact ih hes.tail hnew
  | heading _ ih =>
    intro hd hhd
    rcases List.mem_cons.1 hhd with rfl | hhd
    · rw [hes hd List.mem_cons_self]
      exact hnew
    · exact ih hes.tail hnew hd hhd
  | @enter _ _ _ b _ _ _ _ _ hnew' _ _ ihinside ih =>
    intro hd hhd
    rcases List.mem_append.1 hhd with hhd | hhd
    · -- what is entered keeps clear of an even longer chain
      have hnot := ihinside b.tagged_entries hnew' hd hhd
      exact fun hmem => hnot (List.mem_cons_of_mem _ hmem)
    · exact ih hes.tail hnew hd hhd

/-- Of all headings those that carry the identity of the document itself are
those that stand in it. -/
theorem Gathers.filter_headings (h : Gathers resolve follow chain source es seen build)
    (hes : Entry.Tagged source es) :
    build.headings.filter (·.source = source) = es.filterMap Entry.heading? := by
  induction h with
  | nil => rfl
  | rejected _ ih => exact ih hes.tail
  | lost _ _ ih => exact ih hes.tail
  | cut _ _ _ ih => exact ih hes.tail
  | @heading _ source hd _ _ _ _ ih =>
    have hhead : hd.source = source := hes hd List.mem_cons_self
    simp only [List.filter_cons, hhead, decide_true, if_true, ih hes.tail]
    rfl
  | @enter _ source _ b _ _ inner _ _ hnew inside _ _ ih =>
    have hclear := inside.source_notMem_chain b.tagged_entries hnew
    have hnone : inner.headings.filter (·.source = source) = [] := by
      rw [List.filter_eq_nil_iff]
      intro hd hhd hsame
      refine hclear hd hhd ?_
      rw [of_decide_eq_true hsame]
      exact List.mem_cons_self
    rw [List.filter_append, hnone, ih hes.tail]
    rfl

/-- Without a document to enter only the headings of the entries are gathered. -/
theorem collect_descend_of_none
    (h : ∀ i, target? resolve follow source i = none) (es : List Entry) (seen : List SourceId) :
    collect (descend resolve follow visit chain source) es seen =
      .ok ⟨es.filterMap Entry.heading?, seen⟩ := by
  induction es with
  | nil => rfl
  | cons e es ih =>
    cases e with
    | rejected => exact ih
    | heading hd => rw [collect, ih]; rfl
    | inclusion i =>
      rw [collect, descend_of_none (h i)]
      simp only [ih, List.nil_append]
      rfl

theorem expand_of_none {s : Source} (hes : s.entries = .ok es)
    (h : ∀ i, target? resolve follow s.id i = none) (depth : Nat) (chain : Chain)
    (seen : List SourceId) :
    expand resolve follow depth chain s seen = .ok ⟨es.filterMap Entry.heading?, seen⟩ := by
  cases depth with
  | zero =>
    rw [expand, expandWith, hes]
    exact collect_descend_of_none h es seen
  | succ depth =>
    rw [expand, expandWith, hes]
    exact collect_descend_of_none h es seen

/-- The headings of a build that stand in the document `id`. -/
def part (build : Build) (id : SourceId) : Build :=
  ⟨build.headings.filter (·.source = id), [id]⟩

theorem part_of_expand {depth : Nat} {root : Source}
    (h : expand resolve follow depth [] root [root.id] = .ok build) :
    ∃ es, root.entries = .ok es ∧ build.part root.id = ⟨es.filterMap Entry.heading?, [root.id]⟩ := by
  obtain ⟨es, hes, hgathers⟩ := gathers_of_expand h
  exact ⟨es, hes, by rw [part, hgathers.filter_headings (Source.tagged_entries hes)]⟩

theorem expand_eq_part {depth : Nat} {root : Source}
    (h : expand resolve true depth [] root [root.id] = .ok build) {resolve' : Resolver}
    (hnone : ∀ i, target? resolve' follow root.id i = none) (depth' : Nat) :
    expand resolve' follow depth' [] root [root.id] = .ok (build.part root.id) := by
  obtain ⟨es, hes, hpart⟩ := part_of_expand h
  rw [expand_of_none hes hnone, hpart]

theorem source_notMem_of_expand {depth : Nat} (hnew : b.id ∉ chain)
    (h : expand resolve follow depth chain (.ofBuffer b) seen = .ok build) :
    ∀ hd ∈ build.headings, hd.source ∉ chain :=
  (gathers_of_expand_ofBuffer h).source_notMem_chain b.tagged_entries hnew

theorem source_notMem_of_visit {inner : Build}
    (hvisit : ∀ b seen inner, b.id ∉ source :: chain → visit (source :: chain) b seen = .ok inner →
      ∀ hd ∈ inner.headings, hd.source ∉ source :: chain)
    (h : descend resolve follow visit chain source i seen = .ok inner) :
    ∀ hd ∈ inner.headings, hd.source ∉ source :: chain := by
  cases htarget : target? resolve follow source i with
  | none =>
    rw [descend_of_none htarget] at h
    cases h
    simp
  | some b =>
    rw [descend_of_some htarget] at h
    split at h
    · cases h
      simp
    · next hnew => exact hvisit b _ _ hnew h

/-- What an inclusion contributes never stands in the document that holds it, nor
in one that includes that document. -/
theorem source_notMem_of_descend {depth : Nat} {inner : Build}
    (h : descend resolve follow
      (fun chain b seen => expand resolve follow depth chain (.ofBuffer b) seen) chain source i seen
      = .ok inner) :
    ∀ hd ∈ inner.headings, hd.source ∉ source :: chain :=
  source_notMem_of_visit (fun _ _ _ hnew hv => source_notMem_of_expand hnew hv) h

/-- Inclusions leave the headings of the root alone, whatever they lead to.  The
headings of the root are those of the build that does not follow inclusions, and
of the build that finds none. -/
theorem root_part_of_expand (resolve : Resolver) (root : Source) (depth : Nat) (build : Build)
    (h : expand resolve true depth [] root [root.id] = .ok build) :
    (∃ es, root.entries = .ok es ∧
      build.part root.id = ⟨es.filterMap Entry.heading?, [root.id]⟩) ∧
    (∀ depth', expand resolve false depth' [] root [root.id] = .ok (build.part root.id)) ∧
    (∀ depth', expand Library.empty.resolve true depth' [] root [root.id] =
      .ok (build.part root.id)) ∧
    (∀ lib : Library, lib.resolve = resolve → lib.build true root = .ok build ∧
      lib.build false root = .ok (build.part root.id)) ∧
    Library.empty.build true root = .ok (build.part root.id) ∧
    ∀ depth' i seen inner,
      descend resolve true
        (fun chain b seen => expand resolve true depth' chain (.ofBuffer b) seen) [] root.id i seen
        = .ok inner → ∀ hd ∈ inner.headings, hd.source ≠ root.id := by
  have hunfollowed : ∀ depth', expand resolve false depth' [] root [root.id] =
      .ok (build.part root.id) := expand_eq_part h fun _ => rfl
  have hempty : ∀ depth', expand Library.empty.resolve true depth' [] root [root.id] =
      .ok (build.part root.id) := expand_eq_part h fun _ => rfl
  refine ⟨part_of_expand h, hunfollowed, hempty, ?_, Library.build_eq_ok_iff.2 (hempty _), ?_⟩
  · rintro lib rfl
    exact ⟨build_eq_ok_iff_gathers.2 (gathers_of_expand h),
      Library.build_eq_ok_iff.2 (hunfollowed _)⟩
  · intro depth' i seen inner hinner hd hhd hsame
    exact source_notMem_of_descend hinner hd hhd (by rw [hsame]; exact List.mem_cons_self)

end

/-- Two documents, one of them under the name of `cycleRoot`. -/
def cycle : Shelf :=
  .ofList [("main.tex", "\\section{other}"), ("a.tex", "\\section{a}\\input{main}")]

def cycleRoot : Buffer :=
  .ofString ⟨"main.tex"⟩ "\\input{a}\\section{root}\\input{main.tex}"

theorem root_part_of_cycle :
    cycle.library.build true (.ofBuffer cycleRoot) =
      .ok ⟨[⟨"a", 3, ⟨0, 0⟩, ⟨"a.tex"⟩⟩, ⟨"root", 3, ⟨0, 9⟩, ⟨"main.tex"⟩⟩],
        [⟨"main.tex"⟩, ⟨"a.tex"⟩]⟩ ∧
    cycle.library.build false (.ofBuffer cycleRoot) =
      .ok ⟨[⟨"root", 3, ⟨0, 9⟩, ⟨"main.tex"⟩⟩], [⟨"main.tex"⟩]⟩ := by
  have h : cycle.library.build true (.ofBuffer cycleRoot) =
      .ok ⟨[⟨"a", 3, ⟨0, 0⟩, ⟨"a.tex"⟩⟩, ⟨"root", 3, ⟨0, 9⟩, ⟨"main.tex"⟩⟩],
        [⟨"main.tex"⟩, ⟨"a.tex"⟩]⟩ := by
    decide +kernel
  have hpart := (root_part_of_expand _ _ _ _ (Library.build_eq_ok_iff.1 h)).2.2.2.1 _ rfl
  exact ⟨h, hpart.2⟩

end Build
end Sectioning
