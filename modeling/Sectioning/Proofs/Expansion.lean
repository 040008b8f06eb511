/-
The calls that an expansion makes, and how deep they nest.

A call stands for a document under expansion together with the chain that leads
into it.  `Enters` relates a call to the calls that it makes, and `Terminates`
says that no call leads to an endless run of further ones.  An expansion stops
early only if one of the calls that it enters does (`expandWith_ne_error`), so a
terminating call has a result once the bound is high enough, and every higher
bound gives the same one (`Terminates.exists_bound`, `expand_eq_of_le`).

A resolver with finitely many documents always terminates: no document is
entered twice along a chain, which is the invariant `Reached.path_nodup`.  That the
calls which an expansion makes are the ones of `Enters`, no more and no fewer, is
`makesCalls`.
-/
import Mathlib.Data.List.Dedup
import Mathlib.Logic.Relation
import Sectioning.Inclusion.Project
import Sectioning.Files.Tree
import Sectioning.Proofs.Entries
import Sectioning.Proofs.Shelf

namespace Sectioning
namespace Build

/-- The expansion of a document, into which the chain leads. -/
structure Call where
  chain : Chain
  buffer : Buffer

namespace Call

def root (b : Buffer) : Call := ⟨[], b⟩

/-- The documents under expansion, from the current one out to the root. -/
def path (c : Call) : List SourceId := c.buffer.id :: c.chain

end Call

/-- The expansion of `outer` makes the call `inner`. -/
def Enters (resolve : Resolver) (follow : Bool) (inner outer : Call) : Prop :=
  follow = true ∧ inner.chain = outer.path ∧ inner.buffer.id ∉ outer.path ∧
    ∃ es i, (Source.ofBuffer outer.buffer).entries = .ok es ∧ .inclusion i ∈ es ∧
      resolve i.path outer.buffer.id = some inner.buffer

/-- Every nest of calls below `c` comes to an end. -/
def Terminates (resolve : Resolver) (follow : Bool) (c : Call) : Prop :=
  Acc (Enters resolve follow) c

/-- The expansion of `root` comes to make the call `c`. -/
def Reached (resolve : Resolver) (follow : Bool) (root : Buffer) (c : Call) : Prop :=
  Relation.ReflTransGen (fun outer inner => Enters resolve follow inner outer) (.root root) c

/-- The document that an inclusion in `source` leads to, if inclusions are
followed. -/
def target? (resolve : Resolver) (follow : Bool) (source : SourceId) (i : Inclusion) :
    Option Buffer :=
  if follow then resolve i.path source else none

section

variable {resolve : Resolver} {follow : Bool}
  {visit : Chain → Buffer → List SourceId → Except Stop Build} {chain : Chain}
  {source : SourceId} {i : Inclusion} {b : Buffer} {seen : List SourceId} {c c' : Call}

theorem target?_eq_some_iff :
    target? resolve follow source i = some b ↔
      follow = true ∧ resolve i.path source = some b := by
  cases follow <;> simp [target?]

theorem enters_iff :
    Enters resolve follow c' c ↔ c'.chain = c.path ∧ c'.buffer.id ∉ c.path ∧
      ∃ i, .inclusion i ∈ c.buffer.entries ∧
        target? resolve follow c.buffer.id i = some c'.buffer := by
  constructor
  · rintro ⟨hfollow, hchain, hnew, es, i, hes, hi, hresolve⟩
    rw [Source.entries_ofBuffer] at hes
    cases hes
    exact ⟨hchain, hnew, i, hi, target?_eq_some_iff.2 ⟨hfollow, hresolve⟩⟩
  · rintro ⟨hchain, hnew, i, hi, htarget⟩
    obtain ⟨hfollow, hresolve⟩ := target?_eq_some_iff.1 htarget
    exact ⟨hfollow, hchain, hnew, _, i, Source.entries_ofBuffer _, hi, hresolve⟩

theorem descend_of_none (h : target? resolve follow source i = none) :
    descend resolve follow visit chain source i seen = .ok ⟨[], seen⟩ := by
  unfold target? at h
  unfold descend
  split at h
  · next hfollow => rw [if_pos hfollow, h]
  · next hfollow => rw [if_neg hfollow]

theorem descend_of_some (h : target? resolve follow source i = some b) :
    descend resolve follow visit chain source i seen =
      if b.id ∈ source :: chain then .ok ⟨[], SourceId.note seen b.id⟩
      else visit (source :: chain) b (SourceId.note seen b.id) := by
  unfold target? at h
  unfold descend
  split at h
  · next hfollow =>
    rw [if_pos hfollow, h]
    simp only [Chain.holds, List.elem_iff]
  · cases h

end

/-! ## What stops an expansion -/

section

variable {resolve : Resolver} {follow : Bool}
  {visit visit' : Chain → Buffer → List SourceId → Except Stop Build} {c : Call}

theorem descend_ne_error {i : Inclusion} {stop : Stop}
    (h : ∀ inner, Enters resolve follow inner c → ∀ seen,
      visit inner.chain inner.buffer seen ≠ .error stop)
    (hi : .inclusion i ∈ c.buffer.entries) (seen : List SourceId) :
    descend resolve follow visit c.chain c.buffer.id i seen ≠ .error stop := by
  cases htarget : target? resolve follow c.buffer.id i with
  | none => simp [descend_of_none htarget]
  | some b =>
    rw [descend_of_some htarget]
    split
    · simp
    · next hnew => exact h ⟨c.path, b⟩ (enters_iff.2 ⟨rfl, hnew, i, hi, htarget⟩) _

theorem expandWith_ofBuffer (seen : List SourceId) :
    expandWith resolve follow visit c.chain (.ofBuffer c.buffer) seen =
      collect (descend resolve follow visit c.chain c.buffer.id) c.buffer.entries seen := by
  rw [expandWith, Source.entries_ofBuffer]
  rfl

theorem expandWith_ne_error {stop : Stop}
    (h : ∀ inner, Enters resolve follow inner c → ∀ seen,
      visit inner.chain inner.buffer seen ≠ .error stop)
    (seen : List SourceId) :
    expandWith resolve follow visit c.chain (.ofBuffer c.buffer) seen ≠ .error stop := by
  rw [expandWith_ofBuffer]
  exact collect_ne_error (fun i hi seen => descend_ne_error h hi seen) seen

end

/-! ## The bound -/

section

variable {resolve : Resolver} {follow : Bool}

/-- An expansion of buffers has no error of its own. -/
theorem expand_ne_failed (depth : Nat) (chain : Chain) (b : Buffer) (seen : List SourceId)
    (e : Error) : expand resolve follow depth chain (.ofBuffer b) seen ≠ .error (.failed e) := by
  induction depth generalizing chain b seen with
  | zero =>
    rw [expand]
    exact @expandWith_ne_error resolve follow _ ⟨chain, b⟩ _ (fun _ _ _ => by simp) seen
  | succ depth ih =>
    rw [expand]
    exact @expandWith_ne_error resolve follow _ ⟨chain, b⟩ _ (fun _ _ seen => ih _ _ seen) seen

theorem exists_expand_eq_ok {depth : Nat} {chain : Chain} {b : Buffer} {seen : List SourceId}
    (h : expand resolve follow depth chain (.ofBuffer b) seen ≠ .error .tooDeep) :
    ∃ build, expand resolve follow depth chain (.ofBuffer b) seen = .ok build := by
  cases hb : expand resolve follow depth chain (.ofBuffer b) seen with
  | ok build => exact ⟨build, rfl⟩
  | error stop =>
    cases stop with
    | tooDeep => exact absurd hb h
    | failed e => exact absurd hb (expand_ne_failed depth chain b seen e)

theorem collect_eq_of_ne_tooDeep {f g : Inclusion → List SourceId → Except Stop Build}
    (h : ∀ i seen, f i seen ≠ .error .tooDeep → g i seen = f i seen) (es : List Entry)
    (seen : List SourceId) (hne : collect f es seen ≠ .error .tooDeep) :
    collect g es seen = collect f es seen := by
  induction es generalizing seen with
  | nil => rfl
  | cons e es ih =>
    cases e with
    | rejected => exact ih seen hne
    | heading hd =>
      rw [collect] at hne
      rw [collect, collect, ih seen ?_]
      intro hs
      rw [hs] at hne
      exact hne rfl
    | inclusion i =>
      rw [collect] at hne
      have hi : f i seen ≠ .error .tooDeep := by
        intro hs
        rw [hs] at hne
        exact hne rfl
      rw [collect, collect, h i seen hi]
      cases hf : f i seen with
      | error stop => rfl
      | ok inner =>
        rw [hf] at hne
        simp only at hne ⊢
        rw [ih inner.sources ?_]
        intro hs
        rw [hs] at hne
        exact hne rfl

theorem expandWith_eq_of_ne_tooDeep
    {visit visit' : Chain → Buffer → List SourceId → Except Stop Build}
    (h : ∀ chain b seen, visit chain b seen ≠ .error .tooDeep →
      visit' chain b seen = visit chain b seen)
    (chain : Chain) (s : Source) (seen : List SourceId)
    (hne : expandWith resolve follow visit chain s seen ≠ .error .tooDeep) :
    expandWith resolve follow visit' chain s seen =
      expandWith resolve follow visit chain s seen := by
  unfold expandWith at hne ⊢
  cases he : s.entries with
  | error e => rfl
  | ok es =>
    rw [he] at hne
    refine collect_eq_of_ne_tooDeep (fun i seen hi => ?_) es seen hne
    cases htarget : target? resolve follow s.id i with
    | none => rw [descend_of_none htarget, descend_of_none htarget]
    | some b =>
      rw [descend_of_some htarget] at hi
      rw [descend_of_some htarget, descend_of_some htarget]
      split at hi
      · next hmem => rw [if_pos hmem, if_pos hmem]
      · next hnew =>
        rw [if_neg hnew, if_neg hnew]
        exact h _ _ _ hi

/-- A result that is reached below the bound stays the same under a higher one. -/
theorem expand_succ (depth : Nat) (chain : Chain) (s : Source) (seen : List SourceId)
    (h : expand resolve follow depth chain s seen ≠ .error .tooDeep) :
    expand resolve follow (depth + 1) chain s seen = expand resolve follow depth chain s seen := by
  induction depth generalizing chain s seen with
  | zero =>
    rw [expand] at h
    rw [expand, expand]
    exact expandWith_eq_of_ne_tooDeep (fun _ _ _ hne => absurd rfl hne) chain s seen h
  | succ depth ih =>
    rw [expand] at h
    rw [expand, expand.eq_2 resolve follow chain s seen depth]
    exact expandWith_eq_of_ne_tooDeep (fun _ _ _ hne => ih _ _ _ hne) chain s seen h

theorem expand_eq_of_le {n depth : Nat} (hle : n ≤ depth) (chain : Chain) (s : Source)
    (seen : List SourceId) (h : expand resolve follow n chain s seen ≠ .error .tooDeep) :
    expand resolve follow depth chain s seen = expand resolve follow n chain s seen := by
  obtain ⟨k, rfl⟩ := Nat.exists_eq_add_of_le hle
  clear hle
  induction k with
  | zero => rfl
  | succ k ih =>
    rw [← Nat.add_assoc, expand_succ (n + k) chain s seen (by rw [ih]; exact h), ih]

theorem expand_ne_tooDeep_of_le {n depth : Nat} (hle : n ≤ depth) {chain : Chain} {s : Source}
    {seen : List SourceId} (h : expand resolve follow n chain s seen ≠ .error .tooDeep) :
    expand resolve follow depth chain s seen ≠ .error .tooDeep := by
  rw [expand_eq_of_le hle chain s seen h]
  exact h

theorem exists_bound_of_enters {c : Call}
    (h : ∀ inner, Enters resolve follow inner c → ∃ n, ∀ seen,
      expand resolve follow n inner.chain (.ofBuffer inner.buffer) seen ≠ .error .tooDeep) :
    ∃ n, ∀ inner, Enters resolve follow inner c → ∀ seen,
      expand resolve follow n inner.chain (.ofBuffer inner.buffer) seen ≠ .error .tooDeep := by
  -- The entered calls are as many as the entries, so the bounds have a maximum.
  have hlist : ∀ es : List Entry, ∃ n, ∀ inner, Enters resolve follow inner c → ∀ i,
      .inclusion i ∈ es → resolve i.path c.buffer.id = some inner.buffer → ∀ seen,
        expand resolve follow n inner.chain (.ofBuffer inner.buffer) seen ≠ .error .tooDeep := by
    intro es
    induction es with
    | nil => exact ⟨0, fun _ _ i hi => absurd hi (by simp)⟩
    | cons e es ih =>
      obtain ⟨n, hn⟩ := ih
      by_cases hhead : ∃ inner i, Enters resolve follow inner c ∧ e = .inclusion i ∧
          resolve i.path c.buffer.id = some inner.buffer
      · obtain ⟨first, j, hfirst, rfl, hj⟩ := hhead
        obtain ⟨m, hm⟩ := h first hfirst
        refine ⟨max n m, fun inner hin i hi hresolve seen => ?_⟩
        rw [List.mem_cons, Entry.inclusion.injEq] at hi
        rcases hi with rfl | hi
        · have hbuffer : inner.buffer = first.buffer := by
            rw [hj] at hresolve
            exact (Option.some.inj hresolve).symm
          rw [hin.2.1, hbuffer, ← hfirst.2.1]
          exact expand_ne_tooDeep_of_le (Nat.le_max_right n m) (hm seen)
        · exact expand_ne_tooDeep_of_le (Nat.le_max_left n m) (hn inner hin i hi hresolve seen)
      · refine ⟨n, fun inner hin i hi hresolve seen => ?_⟩
        rw [List.mem_cons] at hi
        rcases hi with rfl | hi
        · exact absurd ⟨inner, i, hin, rfl, hresolve⟩ hhead
        · exact hn inner hin i hi hresolve seen
  obtain ⟨n, hn⟩ := hlist c.buffer.entries
  refine ⟨n, fun inner hin seen => ?_⟩
  obtain ⟨es, i, hes, hi, hresolve⟩ := hin.2.2.2
  rw [Source.entries_ofBuffer] at hes
  cases hes
  exact hn inner hin i hi hresolve seen

/-- A terminating call has a result. -/
theorem Terminates.exists_bound {c : Call} (h : Terminates resolve follow c) :
    ∃ n, ∀ seen,
      expand resolve follow n c.chain (.ofBuffer c.buffer) seen ≠ .error .tooDeep := by
  induction h with
  | intro c _ ih =>
    obtain ⟨n, hn⟩ := exists_bound_of_enters ih
    refine ⟨n + 1, fun seen => ?_⟩
    rw [expand]
    exact expandWith_ne_error hn seen

theorem Terminates.exists_build {root : Buffer} (h : Terminates resolve follow (.root root)) :
    ∃ n build, ∀ depth, n ≤ depth →
      expand resolve follow depth [] (.ofBuffer root) [root.id] = .ok build := by
  obtain ⟨n, hn⟩ := h.exists_bound
  have hroot : expand resolve follow n [] (.ofBuffer root) [root.id] ≠ .error .tooDeep :=
    hn [root.id]
  obtain ⟨build, hb⟩ := exists_expand_eq_ok hroot
  refine ⟨n, build, fun depth hle => ?_⟩
  rw [expand_eq_of_le hle [] _ _ hroot, hb]

end
end Build

theorem Search.resolve_library (s : Search) : s.library.resolve = s.resolve := by
  rw [library]

theorem Library.build_eq_ok_iff {lib : Library} {follow : Bool} {root : Source} {b : Build} :
    lib.build follow root = .ok b ↔
      Build.expand lib.resolve follow lib.bound [] root [root.id] = .ok b := by
  unfold Library.build
  split
  · next b' hb' => rw [hb', Except.ok.injEq, Except.ok.injEq]
  · next e he => simp [he]
  · next h =>
    exact absurd h (Build.expand_ne_tooDeep lib follow _ [] root _ (by simp) (by simp) (by simp))

namespace Build

theorem exists_build_eq_ok (lib : Library) (follow : Bool) (root : Buffer) :
    ∃ build, lib.build follow (.ofBuffer root) = .ok build := by
  have hne := expand_ne_tooDeep lib follow lib.bound [] (.ofBuffer root) [root.id] (by simp)
    (by simp) (by simp)
  obtain ⟨build, hb⟩ := exists_expand_eq_ok hne
  exact ⟨build, Library.build_eq_ok_iff.2 hb⟩

/-- No text makes a build fail.  Every occurrence has an entry, wherever it is
said to stand, and every root whose expansion terminates has a build. -/
theorem entry_and_build_isOk :
    (∀ (b : Buffer) (o : Occurrence), ∃ e, o.entry (.ofBuffer b) = .ok e) ∧
    (∀ (resolve : Resolver) (follow : Bool) (root : Buffer),
      Terminates resolve follow (.root root) → ∃ n build, ∀ depth, n ≤ depth →
        expand resolve follow depth [] (.ofBuffer root) [root.id] = .ok build) ∧
    ∀ (lib : Library) (follow : Bool) (root : Buffer),
      ∃ build, lib.build follow (.ofBuffer root) = .ok build := by
  exact ⟨fun b o => ⟨_, Occurrence.entry_ofBuffer b o⟩,
    fun resolve follow root h => h.exists_build, exists_build_eq_ok⟩

/-- The resolver that finds an empty document under every name. -/
def emptyEverywhere : Resolver := fun target _ => some (.ofString ⟨target⟩ "")

theorem terminates_emptyEverywhere (follow : Bool) (root : Buffer) :
    Terminates emptyEverywhere follow (.root root) := by
  refine Acc.intro _ fun inner hin => Acc.intro _ fun deeper hdeeper => ?_
  obtain ⟨-, -, -, -, i, -, -, hresolve⟩ := hin
  obtain ⟨-, -, -, es, j, hes, hj, -⟩ := hdeeper
  have hempty : inner.buffer = .ofString ⟨i.path⟩ "" := (Option.some.inj hresolve).symm
  rw [hempty] at hes
  cases hes
  exact absurd hj (by simp)

/-- There are resolvers with endlessly many documents among those that the
theorem speaks of. -/
theorem build_isOk_emptyEverywhere :
    Terminates emptyEverywhere true (.root (.ofString ⟨"main"⟩ "\\input{a}")) ∧
    ∃ n build, ∀ depth, n ≤ depth →
      expand emptyEverywhere true depth [] (.ofBuffer (.ofString ⟨"main"⟩ "\\input{a}"))
        [⟨"main"⟩] = .ok build :=
  ⟨terminates_emptyEverywhere _ _,
    entry_and_build_isOk.2.1 _ _ _ (terminates_emptyEverywhere true _)⟩

/-! ## How deep the calls nest -/

section

variable {resolve : Resolver} {follow : Bool} {root : Buffer} {c : Call}

/-- No document is under expansion twice at the same time. -/
theorem Reached.path_nodup (h : Reached resolve follow root c) : c.path.Nodup := by
  induction h with
  | refl => exact List.nodup_singleton _
  | tail _ hin ih =>
    obtain ⟨-, hchain, hnew, -⟩ := hin
    rw [Call.path, hchain]
    exact List.nodup_cons.2 ⟨hnew, ih⟩

/-- Apart from the root, only documents that the resolver gives are under
expansion. -/
theorem Reached.gives_of_mem_path (h : Reached resolve follow root c) :
    ∀ id ∈ c.path, id = root.id ∨ Resolver.Gives resolve id := by
  induction h with
  | refl =>
    intro id hid
    exact Or.inl (List.mem_singleton.1 hid)
  | tail _ hin ih =>
    obtain ⟨-, hchain, -, _, _, -, -, hresolve⟩ := hin
    intro id hid
    rw [Call.path, hchain, List.mem_cons] at hid
    rcases hid with rfl | hid
    · exact Or.inr ⟨_, _, _, hresolve, rfl⟩
    · exact ih id hid

/-- The calls nest no deeper than the resolver has documents to give. -/
theorem Reached.depth_le {n : Nat}
    (hn : ∀ {ids : List SourceId}, ids.Nodup → (∀ id ∈ ids, Resolver.Gives resolve id) →
      ids.length ≤ n)
    (h : Reached resolve follow root c) : c.chain.depth ≤ n := by
  have hnodup := h.path_nodup
  have hgives : ∀ id ∈ c.path.erase root.id, Resolver.Gives resolve id := by
    intro id hid
    obtain ⟨hne, hmem⟩ := hnodup.mem_erase_iff.1 hid
    exact (h.gives_of_mem_path id hmem).resolve_left hne
  calc c.chain.depth
      = c.path.length - 1 := rfl
    _ ≤ (c.path.erase root.id).length := List.le_length_erase
    _ ≤ n := hn (hnodup.erase _) hgives

theorem Enters.depth_eq {inner : Call} (h : Enters resolve follow inner c) :
    inner.chain.depth = c.chain.depth + 1 := by
  rw [h.2.1]
  rfl

/-- Calls whose depth is bounded terminate: every call is one deeper than the
call that makes it. -/
theorem terminates_of_depth_le {n : Nat}
    (h : ∀ c, Reached resolve follow root c → c.chain.depth ≤ n) (k : Nat) :
    ∀ {c : Call}, Reached resolve follow root c → n ≤ c.chain.depth + k →
      Terminates resolve follow c := by
  induction k with
  | zero =>
    intro c hc hn
    refine Acc.intro _ fun inner hin => ?_
    have hle := h inner (hc.tail hin)
    rw [hin.depth_eq] at hle
    omega
  | succ k ih =>
    intro c hc hn
    refine Acc.intro _ fun inner hin => ih (hc.tail hin) ?_
    rw [hin.depth_eq]
    omega

end

section

variable {resolve : Resolver} {follow : Bool} {c : Call}

theorem collect_congr {f g : Inclusion → List SourceId → Except Stop Build} {es : List Entry}
    (h : ∀ i, .inclusion i ∈ es → ∀ seen, f i seen = g i seen) (seen : List SourceId) :
    collect f es seen = collect g es seen := by
  induction es generalizing seen with
  | nil => rfl
  | cons e es ih =>
    have hes := ih fun i hi => h i (List.mem_cons_of_mem e hi)
    cases e with
    | rejected => exact hes seen
    | heading hd => rw [collect, collect, hes]
    | inclusion i =>
      rw [collect, collect, h i List.mem_cons_self]
      cases g i seen with
      | error stop => rfl
      | ok inner => simp only [hes]

theorem collect_eq_error {f : Inclusion → List SourceId → Except Stop Build} {es : List Entry}
    {i : Inclusion} (hi : .inclusion i ∈ es) (h : ∀ seen, ∃ stop, f i seen = .error stop)
    (seen : List SourceId) : ∃ stop, collect f es seen = .error stop := by
  induction es generalizing seen with
  | nil => cases hi
  | cons e es ih =>
    cases e with
    | rejected => exact ih (by simpa using hi) seen
    | heading hd =>
      obtain ⟨stop, hstop⟩ := ih (by simpa using hi) seen
      exact ⟨stop, by rw [collect, hstop]⟩
    | inclusion j =>
      rw [collect]
      cases hj : f j seen with
      | error stop => exact ⟨stop, rfl⟩
      | ok inner =>
        have hmem : .inclusion i ∈ es := by
          rcases List.mem_cons.1 hi with heq | hmem
          · cases heq
            obtain ⟨stop, hstop⟩ := h seen
            rw [hstop] at hj
            cases hj
          · exact hmem
        obtain ⟨stop, hstop⟩ := ih hmem inner.sources
        exact ⟨stop, by simp only [hstop]⟩

/-- The expansion of `c` makes the calls that `c` enters, and no others: it depends on
what they give only, and it stops if one of them does. -/
structure MakesCalls (resolve : Resolver) (follow : Bool) (c : Call) : Prop where
  only : ∀ visit visit', (∀ inner, Enters resolve follow inner c → ∀ seen,
      visit inner.chain inner.buffer seen = visit' inner.chain inner.buffer seen) →
    ∀ seen, expandWith resolve follow visit c.chain (.ofBuffer c.buffer) seen =
      expandWith resolve follow visit' c.chain (.ofBuffer c.buffer) seen
  all : ∀ inner, Enters resolve follow inner c → ∀ visit,
    (∀ seen, ∃ stop, visit inner.chain inner.buffer seen = .error stop) →
    ∀ seen, ∃ stop, expandWith resolve follow visit c.chain (.ofBuffer c.buffer) seen =
      .error stop

theorem makesCalls (resolve : Resolver) (follow : Bool) (c : Call) :
    MakesCalls resolve follow c where
  only visit visit' h seen := by
    rw [expandWith_ofBuffer, expandWith_ofBuffer]
    refine collect_congr (fun i hi seen => ?_) seen
    cases htarget : target? resolve follow c.buffer.id i with
    | none => rw [descend_of_none htarget, descend_of_none htarget]
    | some b =>
      rw [descend_of_some htarget, descend_of_some htarget]
      split
      · rfl
      · next hnew => exact h ⟨c.path, b⟩ (enters_iff.2 ⟨rfl, hnew, i, hi, htarget⟩) _
  all inner hin visit h seen := by
    obtain ⟨hchain, hnew, i, hi, htarget⟩ := enters_iff.1 hin
    rw [expandWith_ofBuffer]
    refine collect_eq_error hi (fun seen => ?_) seen
    rw [descend_of_some htarget]
    split
    · next hmem => exact absurd hmem hnew
    · rw [hchain] at h
      exact h _

end

/-- The expansion of `root` ends, and none of its calls nests a document in itself. -/
structure Ends (resolve : Resolver) (follow : Bool) (root : Buffer) : Prop where
  terminates : Terminates resolve follow (.root root)
  calls : ∀ c, Reached resolve follow root c → MakesCalls resolve follow c
  distinct : ∀ c, Reached resolve follow root c → c.path.Nodup

section

variable {resolve : Resolver} {follow : Bool} {root : Buffer} {n : Nat}

theorem ends_of_depth_le (h : ∀ c, Reached resolve follow root c → c.chain.depth ≤ n) :
    Ends resolve follow root where
  terminates := terminates_of_depth_le h n .refl (Nat.le_add_left _ _)
  calls c _ := makesCalls resolve follow c
  distinct _ hc := hc.path_nodup

end

theorem Search.ends (search : Search) (follow : Bool) (root : Buffer) :
    Ends search.resolve follow root := by
  rw [← search.resolve_library]
  exact ends_of_depth_le fun _ hc => hc.depth_le search.library.length_le_bound

-- Beyond the limit the file has no canonical path and goes by the paths that it is found
-- by.  So it is entered from within itself, though under each name only once.
example :
    ((Project.mk "x.tex" ["tex"] true).build (FileTree.mk
      [(["deep"], .directory),
        (["deep", "x.tex"], .file ⟨"\\section{A}\\input{./x.tex}\\input{././x.tex}".toUTF8, 0⟩)]
      ["deep"] (some 10)).disk).toOption.map (fun b => b.headings.map (·.source.name)) =
    some ["x.tex", "./x.tex", "././x.tex", "././x.tex", "./x.tex"] := by
  decide +kernel

end Build
end Sectioning
