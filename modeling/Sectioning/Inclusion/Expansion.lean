/-
The headings of a document and of all that it includes.

An inclusion is replaced by the headings of the document it names, at the place
of the command.  A document that is being expanded already is not entered again,
so a cycle of inclusions is cut where it closes.

`expand` works with any resolver and is bounded by a depth of nesting; it says so
when the bound is reached.  `Library.build` takes the bound on the documents of a
library for it.  It is never reached, because the documents on a chain of
inclusions are all different (`expand_ne_tooDeep`).
-/
import Sectioning.Heading.Entry
import Sectioning.Inclusion.Library

namespace Sectioning

/-- The documents that are being expanded, the innermost first. -/
abbrev Chain := List SourceId

namespace Chain

/-- The number of inclusions between the root and the document that the chain
leads into. -/
def depth (c : Chain) : Nat :=
  c.length

def holds (c : Chain) (id : SourceId) : Bool :=
  List.elem id c

end Chain

/-- The headings of a document in reading order, and all documents that were
read: the root first, the others in the order in which they were reached. -/
structure Build where
  headings : List Heading
  sources : List SourceId
  deriving DecidableEq

namespace Build

/-- Why an expansion has no result. -/
inductive Stop where
  /-- Inclusions nest deeper than the bound. -/
  | tooDeep
  | failed (e : Error)

/-- Puts the headings of a document together from its entries.  The documents
read so far are handed through. -/
def collect (descend : Inclusion → List SourceId → Except Stop Build) :
    List Entry → List SourceId → Except Stop Build
  | [], seen => .ok ⟨[], seen⟩
  | .rejected :: es, seen => collect descend es seen
  | .heading h :: es, seen =>
    match collect descend es seen with
    | .error stop => .error stop
    | .ok rest => .ok ⟨h :: rest.headings, rest.sources⟩
  | .inclusion i :: es, seen =>
    match descend i seen with
    | .error stop => .error stop
    | .ok inner =>
      match collect descend es inner.sources with
      | .error stop => .error stop
      | .ok rest => .ok ⟨inner.headings ++ rest.headings, rest.sources⟩

/-- What an inclusion in the document `source` contributes, where `visit` expands
a document that it leads to.  The chain leads into `source`. -/
def descend (resolve : Resolver) (follow : Bool)
    (visit : Chain → Buffer → List SourceId → Except Stop Build) (chain : Chain)
    (source : SourceId) (i : Inclusion) (seen : List SourceId) : Except Stop Build :=
  if follow then
    match resolve i.path source with
    | none => .ok ⟨[], seen⟩
    | some b =>
      if Chain.holds (source :: chain) b.id then .ok ⟨[], SourceId.note seen b.id⟩
      else visit (source :: chain) b (SourceId.note seen b.id)
  else .ok ⟨[], seen⟩

def expandWith (resolve : Resolver) (follow : Bool)
    (visit : Chain → Buffer → List SourceId → Except Stop Build) (chain : Chain)
    (s : Source) (seen : List SourceId) : Except Stop Build :=
  match s.entries with
  | .error e => .error (.failed e)
  | .ok es => collect (descend resolve follow visit chain s.id) es seen

/-- The headings of a source and of what it includes, through at most `depth`
inclusions. -/
def expand (resolve : Resolver) (follow : Bool) (depth : Nat) (chain : Chain) (s : Source)
    (seen : List SourceId) : Except Stop Build :=
  match depth with
  | 0 => expandWith resolve follow (fun _ _ _ => .error .tooDeep) chain s seen
  | depth + 1 =>
    expandWith resolve follow
      (fun chain b seen => expand resolve follow depth chain (.ofBuffer b) seen) chain s seen

/-! ## The bound is not reached -/

theorem collect_ne_error {f : Inclusion → List SourceId → Except Stop Build} {es : List Entry}
    {stop : Stop} (h : ∀ i, .inclusion i ∈ es → ∀ seen, f i seen ≠ .error stop)
    (seen : List SourceId) : collect f es seen ≠ .error stop := by
  induction es generalizing seen with
  | nil => simp [collect]
  | cons e es ih =>
    have hes := ih fun i hi => h i (List.mem_cons_of_mem e hi)
    cases e with
    | rejected => exact hes seen
    | heading hd =>
      rw [collect]
      split
      · next s hs => rw [← hs]; exact hes seen
      · simp
    | inclusion i =>
      rw [collect]
      split
      · next s hs => rw [← hs]; exact h i List.mem_cons_self seen
      · split
        · next s hs => rw [← hs]; exact hes _
        · simp

theorem descend_ne_tooDeep {lib : Library} {follow : Bool}
    {visit : Chain → Buffer → List SourceId → Except Stop Build} {chain : Chain}
    {source : SourceId}
    (h : ∀ b seen, Resolver.Gives lib.resolve b.id → b.id ∉ source :: chain →
      visit (source :: chain) b seen ≠ .error .tooDeep)
    (i : Inclusion) (seen : List SourceId) :
    descend lib.resolve follow visit chain source i seen ≠ .error .tooDeep := by
  unfold descend
  split
  · split
    · simp
    · next b hb =>
      split
      · simp
      · next hnot => exact h b _ ⟨_, _, b, hb, rfl⟩ (by simpa [Chain.holds] using hnot)
  · simp

/-- With a bound of as many inclusions as the chain leaves documents to enter,
the bound is not reached.  The chain may hold one document from outside the
library, the root. -/
theorem expand_ne_tooDeep (lib : Library) (follow : Bool) (depth : Nat) (chain : Chain)
    (s : Source) (seen : List SourceId) (hdistinct : (s.id :: chain).Nodup)
    (hgiven : ∀ id ∈ (s.id :: chain).dropLast, Resolver.Gives lib.resolve id)
    (hdepth : lib.bound ≤ depth + chain.length) :
    expand lib.resolve follow depth chain s seen ≠ .error .tooDeep := by
  induction depth generalizing chain s seen with
  | zero =>
    unfold expand expandWith
    split
    · simp
    · refine collect_ne_error (fun i _ => descend_ne_tooDeep ?_ i) _
      intro b seen hb hnew
      have hlen : (b.id :: (s.id :: chain).dropLast).length ≤ lib.bound := by
        refine lib.length_le_bound (List.nodup_cons.2 ⟨?_, ?_⟩) ?_
        · exact fun hmem => hnew (List.dropLast_subset _ hmem)
        · exact hdistinct.sublist (List.dropLast_sublist _)
        · intro id hid
          cases hid with
          | head => exact hb
          | tail _ hid => exact hgiven id hid
      simp only [List.length_cons, List.length_dropLast] at hlen
      omega
  | succ depth ih =>
    unfold expand expandWith
    split
    · simp
    · refine collect_ne_error (fun i _ => descend_ne_tooDeep ?_ i) _
      intro b seen hb hnew
      refine ih (s.id :: chain) (.ofBuffer b) seen (List.nodup_cons.2 ⟨hnew, hdistinct⟩) ?_ ?_
      · intro id hid
        rw [List.dropLast_cons_of_ne_nil (List.cons_ne_nil _ _)] at hid
        cases hid with
        | head => exact hb
        | tail _ hid => exact hgiven id hid
      · simp only [List.length_cons]
        omega

end Build

namespace Library

/-- The headings of a document and, if they are followed, of its inclusions.
The only error is that of a root that does not hand out its own text. -/
def build (lib : Library) (follow : Bool) (root : Source) : Except Error Build :=
  match h : Build.expand lib.resolve follow lib.bound [] root [root.id] with
  | .ok b => .ok b
  | .error (.failed e) => .error e
  | .error .tooDeep =>
    absurd h (Build.expand_ne_tooDeep lib follow _ [] root _ (by simp) (by simp) (by simp))

end Library
end Sectioning
