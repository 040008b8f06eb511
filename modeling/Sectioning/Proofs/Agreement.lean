/-
Two resolvers that agree on what an expansion asks.

An expansion asks a resolver about the inclusions that it comes upon, and about
nothing else.  A second resolver that gives the same answers to these questions
takes it through the same steps (`Gathers.of_not_meets`), whatever it says
elsewhere.  If it only finds more than the first, then at least all calls of the
first expansion are made again (`Reached.mono`).
-/
import Sectioning.Inclusion.Project
import Sectioning.Proofs.Reachability

namespace Sectioning
namespace Build

/-- The entry is an inclusion for which the two resolvers have different answers. -/
def Differs (resolve resolve' : Resolver) (follow : Bool) (source : SourceId) (e : Entry) : Prop :=
  ∃ i, e = .inclusion i ∧ target? resolve' follow source i ≠ target? resolve follow source i

section

variable {resolve resolve' : Resolver} {follow : Bool} {chain : Chain} {source : SourceId}
  {i : Inclusion} {es : List Entry} {seen : List SourceId} {build : Build} {root : Buffer}
  {c c' : Call}

theorem target?_eq_of_not_differs (h : ¬ Differs resolve resolve' follow source (.inclusion i)) :
    target? resolve' follow source i = target? resolve follow source i :=
  Classical.not_not.1 fun hne => h ⟨i, rfl, hne⟩

theorem Gathers.of_not_meets (h : Gathers resolve follow chain source es seen build)
    (hagree : ∀ e ∈ es, ¬ Meets resolve follow (Differs resolve resolve' follow) chain source e) :
    Gathers resolve' follow chain source es seen build := by
  induction h with
  | nil => exact .nil
  | rejected _ ih => exact .rejected (ih fun e he => hagree e (List.mem_cons_of_mem _ he))
  | heading _ ih => exact .heading (ih fun e he => hagree e (List.mem_cons_of_mem _ he))
  | lost htarget _ ih =>
    have hsame := target?_eq_of_not_differs fun hd => hagree _ List.mem_cons_self (.here hd)
    exact .lost (hsame.trans htarget) (ih fun e he => hagree e (List.mem_cons_of_mem _ he))
  | cut htarget hmem _ ih =>
    have hsame := target?_eq_of_not_differs fun hd => hagree _ List.mem_cons_self (.here hd)
    exact .cut (hsame.trans htarget) hmem (ih fun e he => hagree e (List.mem_cons_of_mem _ he))
  | enter htarget hnew _ _ ihinside ih =>
    have hsame := target?_eq_of_not_differs fun hd => hagree _ List.mem_cons_self (.here hd)
    refine .enter (hsame.trans htarget) hnew (ihinside fun e he hmeets => ?_)
      (ih fun e he => hagree e (List.mem_cons_of_mem _ he))
    exact hagree _ List.mem_cons_self (.inside htarget hnew he hmeets)

/-- If the two resolvers agree on all inclusions that the build comes upon, they
give the same build. -/
theorem build_eq_ok_of_reached {lib lib' : Library}
    (h : lib.build follow (.ofBuffer root) = .ok build)
    (hagree : ∀ c, Reached lib.resolve follow root c → ∀ i, .inclusion i ∈ c.buffer.entries →
      target? lib'.resolve follow c.buffer.id i = target? lib.resolve follow c.buffer.id i) :
    lib'.build follow (.ofBuffer root) = .ok build := by
  refine build_eq_ok_iff_gathers.2 ⟨root.entries, Source.entries_ofBuffer root, ?_⟩
  refine (gathers_of_build h).of_not_meets fun e he hmeets => ?_
  obtain ⟨c, hc, _, hi, i, rfl, hne⟩ := (exists_meets_iff (c := .root root)).1 ⟨e, he, hmeets⟩
  exact hne (hagree c hc i hi)

/-- A resolver that finds all that another one finds leads to all of its calls. -/
theorem Reached.mono (hmono : ∀ {target asker b}, resolve target asker = some b →
    resolve' target asker = some b) (h : Reached resolve follow root c) :
    Reached resolve' follow root c := by
  induction h with
  | refl => exact .refl
  | tail _ hin ih =>
    obtain ⟨hfollow, hchain, hnew, es, i, hes, hi, hresolve⟩ := hin
    exact ih.tail ⟨hfollow, hchain, hnew, es, i, hes, hi, hmono hresolve⟩

end
end Build

/-! ## Projects -/

namespace Project

open Build

section

variable {p p' : Project} {d d' : Disk} {root : Buffer} {b : Build}

theorem build_eq_ok_iff :
    p.build d = .ok b ↔ ∃ root, d.openBuffer p.path = .ok root ∧
      (p.search d).library.build p.follow (.ofBuffer root) = .ok b := by
  unfold build buildFrom
  cases d.openBuffer p.path with
  | error e => simp
  | ok root => simp

theorem exists_build (p : Project) (h : d.openBuffer p.path = .ok root) :
    ∃ b, p.build d = .ok b := by
  obtain ⟨b, hb⟩ := exists_build_eq_ok (p.search d).library p.follow root
  exact ⟨b, build_eq_ok_iff.2 ⟨root, h, hb⟩⟩

theorem mem_sources_iff (h : p.build d = .ok b) (hroot : d.openBuffer p.path = .ok root)
    {id : SourceId} :
    id ∈ b.sources ↔ id = root.id ∨
      ∃ c, Reached (p.search d).resolve p.follow root c ∧
        ∃ e ∈ c.buffer.entries, LeadsTo (p.search d).resolve p.follow id c.buffer.id e := by
  obtain ⟨root', hroot', hb⟩ := build_eq_ok_iff.1 h
  rw [hroot, Except.ok.injEq] at hroot'
  rw [mem_sources_build_iff hb, hroot', Search.resolve_library]

/-- Two projects with the same root give the same build, if their searches agree on
all inclusions that the first build comes upon. -/
theorem build_eq_ok_of_reached (h : p.build d = .ok b) (hroot : d.openBuffer p.path = .ok root)
    (hroot' : d'.openBuffer p'.path = .ok root) (hfollow : p'.follow = p.follow)
    (hagree : ∀ c i, Reached (p.search d).resolve p.follow root c →
      .inclusion i ∈ c.buffer.entries → p.follow = true →
        (p'.search d').resolve i.path c.buffer.id = (p.search d).resolve i.path c.buffer.id) :
    p'.build d' = .ok b := by
  obtain ⟨root₁, hroot₁, hb⟩ := build_eq_ok_iff.1 h
  rw [hroot, Except.ok.injEq] at hroot₁
  subst hroot₁
  refine build_eq_ok_iff.2 ⟨root, hroot', ?_⟩
  rw [hfollow]
  refine Build.build_eq_ok_of_reached hb fun c hc i hi => ?_
  rw [Search.resolve_library] at hc ⊢
  rw [Search.resolve_library, target?, target?]
  split
  · next hfollow => exact hagree c i hc hi hfollow
  · rfl

end
end Project
end Sectioning
