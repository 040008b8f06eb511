/-
The spelling of the root path.

A name is looked for in the directory of the root first, and the path of that
directory is taken from the spelling of the root.  Two spellings of one file put
the same places behind a name (`FileTree.Proper.locate_join_eq`).  Where a look-up is
the walk along the segments and nothing else, they find the same documents, and the
documents have the same identities.
-/
import Sectioning.Proofs.Agreement
import Sectioning.Proofs.Trees

namespace Sectioning

theorem ne_empty_of_mem_spellings {target name : String} {extensions : List String}
    (hne : target ≠ "") (h : name ∈ spellings target extensions) : name ≠ "" := by
  have hmem : name = target ∨ ∃ e ∈ extensions, target ++ "." ++ e = name := by
    unfold spellings at h
    split at h
    · simpa using h
    · simpa [or_comm] using h
  rcases hmem with rfl | ⟨e, -, rfl⟩
  · exact hne
  · intro hempty
    have hnil := congrArg String.toList hempty
    simp at hnil

namespace Search

section

variable {d : Disk} {names rest : List String} {f g : String → String}

theorem find?_bind_congr
    (h : ∀ name ∈ names, d.isFile (g name) = d.isFile (f name) ∧
      (d.openBuffer (g name)).toOption = (d.openBuffer (f name)).toOption) :
    ((names.map g ++ rest).find? d.isFile).bind (fun path => (d.openBuffer path).toOption) =
      ((names.map f ++ rest).find? d.isFile).bind fun path => (d.openBuffer path).toOption := by
  induction names with
  | nil => rfl
  | cons name names ih =>
    obtain ⟨hfile, hopen⟩ := h name List.mem_cons_self
    rw [List.map_cons, List.map_cons, List.cons_append, List.cons_append, List.find?_cons,
      List.find?_cons, hfile]
    cases d.isFile (f name) with
    | true => exact hopen
    | false => exact ih fun n hn => h n (List.mem_cons_of_mem name hn)

theorem candidates_eq (s : Search) {target : String} (h : trimmed target ≠ "") (asker : SourceId) :
    s.candidates target asker =
      (spellings (trimmed target) s.extensions).map (Path.join s.directory) ++
        (Path.parent? asker.name).toList.flatMap fun base =>
          (spellings (trimmed target) s.extensions).map (Path.join base) := by
  rw [candidates, if_neg h, List.flatMap_cons]

/-- Two directories are as good as each other for a name, if each spelling of it
finds the same behind both. -/
theorem resolve_congr {directory directory' : String} {extensions : List String} {target : String}
    (h : ∀ name ∈ spellings (trimmed target) extensions, trimmed target ≠ "" →
      d.isFile (Path.join directory' name) = d.isFile (Path.join directory name) ∧
        (d.openBuffer (Path.join directory' name)).toOption =
          (d.openBuffer (Path.join directory name)).toOption)
    (asker : SourceId) :
    (mk d directory' extensions).resolve target asker =
      (mk d directory extensions).resolve target asker := by
  unfold resolve
  by_cases hne : trimmed target = ""
  · simp [candidates, hne]
  · rw [candidates_eq _ hne, candidates_eq _ hne]
    exact find?_bind_congr fun name hname => h name hname hne

end
end Search

namespace FileTree

/-- Two paths to one place find the same file there, under the same name. -/
theorem openBuffer_congr {t : FileTree} {path path' : String} (hlimit : t.pathLimit = none)
    (hloc : t.locate path' = t.locate path) :
    t.disk.isFile path' = t.disk.isFile path ∧
      (t.disk.openBuffer path').toOption = (t.disk.openBuffer path).toOption := by
  constructor
  · change t.isFile path' = t.isFile path
    rw [Bool.eq_iff_iff, isFile_iff, isFile_iff, LeadsToFile, hloc, admits_of_unlimited hlimit,
      admits_of_unlimited hlimit]
    rfl
  · have hiff : ∀ b, t.disk.openBuffer path' = .ok b ↔ t.disk.openBuffer path = .ok b := by
      intro b
      simp only [openBuffer_eq_ok_iff, admits_of_unlimited hlimit, hloc, true_and]
      refine exists_congr fun place => exists_congr fun f => exists_congr fun text => ?_
      refine and_congr_right fun hplace => ?_
      have hids := withinLimit_of_unlimited hlimit
      rw [hids.sourceId_eq (hloc.trans hplace), hids.sourceId_eq hplace]
    exact toOption_congr hiff

end FileTree

namespace Project

open Build

/-- Where a look-up is the walk along the segments, the build of a file does not depend
on how its path is spelled. -/
theorem build_eq_of_locate_eq (t : FileTree) (ht : t.Proper) (hlimit : t.pathLimit = none)
    (path path' text : String) (extensions : List String) (follow : Bool)
    (hread : t.read path = .ok text) (hsame : t.locate path' = t.locate path) :
    ∃ b, (mk path extensions follow).build t.disk = .ok b ∧
      (mk path' extensions follow).build t.disk = .ok b := by
  obtain ⟨f, hfile, htext⟩ := FileTree.read_eq_ok_iff.1 hread
  obtain ⟨-, place, hloc, hitem⟩ := FileTree.file_eq_ok_iff.1 hfile
  have hloc' : t.locate path' = .ok place := hsame.trans hloc
  have hroot : ∀ {p}, t.locate p = .ok place →
      t.disk.openBuffer p = .ok (.ofString ⟨FileTree.absolute place⟩ text) := by
    intro p hp
    refine FileTree.openBuffer_eq_ok_iff.2
      ⟨place, f, text, FileTree.admits_of_unlimited hlimit p, hp, hitem, htext, ?_⟩
    rw [(FileTree.withinLimit_of_unlimited hlimit).sourceId_eq hp]
  obtain ⟨b, hb⟩ := exists_build (mk path extensions follow) (hroot hloc)
  refine ⟨b, hb, build_eq_ok_of_reached hb (hroot hloc) (hroot hloc') rfl ?_⟩
  intro c i _ _ _
  refine Search.resolve_congr (fun name hname hne => ?_) c.buffer.id
  refine FileTree.openBuffer_congr hlimit ?_
  exact ht.locate_join_eq hloc hloc' hitem (ne_empty_of_mem_spellings hne hname)

/-- A document of one name in two places: beside the root and in the directory of the
document that includes it. -/
def twofold : FileTree where
  items := [
    (["w"], .directory),
    (["w", "s"], .directory),
    (["w", "m"], .ofText "\\input{s/o}"),
    (["w", "s", "o.tex"], .ofText "\\input{bibliography}"),
    (["w", "bibliography.tex"], .ofText "\\section{outer}"),
    (["w", "s", "bibliography.tex"], .ofText "\\section{inner}")]
  workingDirectory := ["w"]
  pathLimit := none

theorem proper_twofold : twofold.Proper :=
  ⟨by decide +kernel, by simp [twofold, FileTree.item?]⟩

/-- Once relative and through another directory, once absolute with a slash too many. -/
theorem build_twofold_eq :
    twofold.Proper ∧ twofold.pathLimit = none ∧ twofold.read "s/../m" = .ok "\\input{s/o}" ∧
    twofold.locate "///w/m" = twofold.locate "s/../m" ∧
    ∃ b, (mk "s/../m" ["tex"] true).build twofold.disk = .ok b ∧
      (mk "///w/m" ["tex"] true).build twofold.disk = .ok b := by
  have hread : twofold.read "s/../m" = .ok "\\input{s/o}" := by decide +kernel
  have hsame : twofold.locate "///w/m" = twofold.locate "s/../m" := by decide +kernel
  exact ⟨proper_twofold, rfl, hread, hsame,
    build_eq_of_locate_eq twofold proper_twofold rfl _ _ _ _ _ hread hsame⟩

end Project
end Sectioning
