/-
Paths and their segments.

The directory of a path is written with the segments of the path up to its last
name, less the fillers right in front of that name.  A name behind the directory
adds its own segments to them (`segments_join_directoryOf`), whichever of its
three forms the directory has: the empty path, the root, or any other.
-/
import Mathlib.Data.List.TakeWhile
import Sectioning.Inclusion.Search
import Sectioning.Proofs.Blanks

namespace Sectioning

/-! ## Pieces between separators -/

namespace Text

theorem extendFirst_append {ps : List (List Char)} (h : ps ≠ []) (c : Char)
    (qs : List (List Char)) : extendFirst c (ps ++ qs) = extendFirst c ps ++ qs := by
  cases ps with
  | nil => exact absurd rfl h
  | cons p ps => rfl

theorem split_append_separator (separator : Char) (us vs : List Char) :
    split separator (us ++ separator :: vs) = split separator us ++ split separator vs := by
  induction us with
  | nil =>
    rw [List.nil_append, split.eq_2, if_pos rfl]
    rfl
  | cons u us ih =>
    rw [List.cons_append, split, split]
    split
    · rw [ih]; rfl
    · rw [ih, extendFirst_append (split_ne_nil separator us)]

theorem notMem_of_mem_split {separator : Char} {cs piece : List Char}
    (h : piece ∈ split separator cs) : separator ∉ piece := by
  induction cs generalizing piece with
  | nil =>
    rw [List.mem_singleton.1 h]
    exact List.not_mem_nil
  | cons c cs ih =>
    rw [split] at h
    split at h
    · rcases List.mem_cons.1 h with rfl | h
      · exact List.not_mem_nil
      · exact ih h
    · next hc =>
      obtain ⟨p, ps, hsplit⟩ := List.exists_cons_of_ne_nil (split_ne_nil separator cs)
      rw [hsplit] at h ih
      rcases List.mem_cons.1 h with rfl | h
      · exact List.not_mem_cons_of_ne_of_not_mem (Ne.symm hc) (ih List.mem_cons_self)
      · exact ih (List.mem_cons_of_mem p h)

end Text

namespace Path

section

variable {path base name first s : String} {rest ss : List String}

theorem segments_ne_nil (path : String) : segments path ≠ [] := by
  rw [segments, Ne, List.map_eq_nil_iff]
  exact Text.split_ne_nil _ _

theorem segments_append (a b : String) : segments (a ++ "/" ++ b) = segments a ++ segments b := by
  have hlist : (a ++ "/" ++ b).toList = a.toList ++ '/' :: b.toList := by simp
  rw [segments, hlist, Text.split_append_separator, List.map_append]
  rfl

theorem slash_notMem (h : s ∈ segments path) : '/' ∉ s.toList := by
  obtain ⟨piece, hpiece, rfl⟩ := List.mem_map.1 h
  rw [String.toList_ofList]
  exact Text.notMem_of_mem_split hpiece

theorem segments_of_notMem (h : '/' ∉ s.toList) : segments s = [s] := by
  rw [segments, Text.split_of_notMem h, List.map_singleton, String.ofList_toList]

theorem segments_intercalate (hne : ss ≠ []) (h : ∀ s ∈ ss, '/' ∉ s.toList) :
    segments ("/".intercalate ss) = ss := by
  induction ss with
  | nil => exact absurd rfl hne
  | cons s ss ih =>
    have hs := segments_of_notMem (h s List.mem_cons_self)
    cases ss with
    | nil => rw [String.intercalate_singleton, hs]
    | cons s' ss =>
      rw [String.intercalate_cons_cons, segments_append, hs,
        ih (List.cons_ne_nil _ _) fun x hx => h x (List.mem_cons_of_mem s hx)]
      rfl

/-- A path is absolute if nothing stands in front of its first slash. -/
theorem isAbsolute_iff (h : segments path = first :: rest) :
    isAbsolute path = true ↔ first = "" ∧ rest ≠ [] := by
  rw [isAbsolute, beq_iff_eq]
  rw [segments] at h
  cases hpath : path.toList with
  | nil =>
    rw [hpath] at h
    cases h
    simp
  | cons c cs =>
    obtain ⟨p, ps, hsplit⟩ := List.exists_cons_of_ne_nil (Text.split_ne_nil '/' cs)
    rw [hpath, Text.split, hsplit] at h
    rw [List.head?_cons, Option.some.injEq]
    split at h
    · next hc =>
      cases h
      exact iff_of_true hc ⟨rfl, List.cons_ne_nil _ _⟩
    · next hc =>
      cases h
      refine iff_of_false hc fun hempty => ?_
      have hnil := congrArg String.toList hempty.1
      rw [String.toList_ofList] at hnil
      cases hnil

/-! ## A name behind a directory -/

theorem join_eq (hname : isAbsolute name = false) (hbase : (segments base).getLast? ≠ some "") :
    join base name = base ++ "/" ++ name := by
  have hempty : base ≠ "" := by
    rintro rfl
    exact hbase rfl
  have hlast : base.toList.getLast? ≠ some '/' := by
    intro hslash
    obtain ⟨us, hus⟩ := List.getLast?_eq_some_iff.1 hslash
    refine hbase ?_
    rw [segments, hus, Text.split_append_separator, List.map_append]
    exact List.getLast?_concat
  simp [join, hname, hempty, hlast]

/-! ## Fillers -/

theorem ofSegment?_eq_none_iff : Component.ofSegment? s = none ↔ s = "" ∨ s = "." := by
  unfold Component.ofSegment?
  split
  · next h => simp [h]
  · next h =>
    split <;> simp [h]

theorem isFiller_iff : isFiller s = true ↔ s = "" ∨ s = "." := by
  rw [isFiller, Option.isNone_iff_eq_none, ofSegment?_eq_none_iff]

theorem exists_dropFillers (ss : List String) :
    ∃ fillers, ss = dropFillers ss ++ fillers ∧ ∀ s ∈ fillers, isFiller s = true := by
  refine ⟨(ss.reverse.takeWhile isFiller).reverse, ?_, fun s hs => ?_⟩
  · rw [dropFillers, ← List.reverse_append, List.takeWhile_append_dropWhile, List.reverse_reverse]
  · exact List.mem_takeWhile_imp (List.mem_reverse.1 hs)

theorem getLast?_dropFillers_ne (hs : isFiller s = true) : (dropFillers ss).getLast? ≠ some s := by
  intro h
  rw [dropFillers, List.getLast?_reverse] at h
  have hhead := List.head?_dropWhile_not isFiller ss.reverse
  rw [h] at hhead
  simp [hs] at hhead

theorem dropFillers_append (hs : isFiller s = false) (ss : List String) :
    dropFillers (ss ++ [s]) = ss ++ [s] := by
  simp [dropFillers, hs]

/-! ## The directory of a path -/

theorem directoryOf_of_singleton (h : segments path = [s]) (hs : isFiller s = false) :
    Search.directoryOf path = "" := by
  have hne : s ≠ "" := by
    rintro rfl
    cases hs
  simp [Search.directoryOf, parent?, h, dropFillers, hne]

theorem directoryOf_of_append (h : segments path = first :: (rest ++ [s]))
    (hs : isFiller s = false) :
    Search.directoryOf path = ofSegments first (dropFillers rest) := by
  simp [Search.directoryOf, parent?, h, dropFillers_append hs]

theorem segments_join_directoryOf (h : segments path = first :: (rest ++ [s]))
    (hs : isFiller s = false) (hname : isAbsolute name = false) :
    segments (join (Search.directoryOf path) name) =
      first :: (dropFillers rest ++ segments name) := by
  rw [directoryOf_of_append h hs, ofSegments]
  split
  · next hroot =>
    obtain ⟨rfl, hkept⟩ := hroot
    have hjoin : join "/" name = "" ++ "/" ++ name := by simp [join, hname]
    rw [hjoin, segments_append, hkept]
    rfl
  · next hroot =>
    have hslash : ∀ x ∈ first :: dropFillers rest, '/' ∉ x.toList := by
      obtain ⟨fillers, hfillers, -⟩ := exists_dropFillers rest
      intro x hx
      have hmem : x ∈ segments path := by
        rw [h, hfillers]
        rcases List.mem_cons.1 hx with rfl | hx
        · exact List.mem_cons_self
        · simp [hx]
      exact slash_notMem hmem
    have hsegments := segments_intercalate (List.cons_ne_nil _ _) hslash
    have hlast : (first :: dropFillers rest).getLast? ≠ some "" := by
      cases hkept : dropFillers rest with
      | nil =>
        intro hfirst
        exact hroot ⟨Option.some.inj hfirst, hkept⟩
      | cons x xs =>
        rw [List.getLast?_cons_cons, ← hkept]
        exact getLast?_dropFillers_ne rfl
    rw [join_eq hname (by rw [hsegments]; exact hlast), segments_append, hsegments]
    rfl

end
end Path
end Sectioning
