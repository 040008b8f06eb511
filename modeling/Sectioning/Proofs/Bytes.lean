/-
Cutting a text at bytes that lie between characters.

A byte offset lies between characters exactly when it is the byte length of a
beginning of the text.  `cut?_append` gives the text between two such offsets, and
`exists_append_of_cut?` says that no others cut the text.  `exists_of_drop_octets`
finds the beginning for an octet that starts a character.
-/
import Sectioning.Text.Octet

namespace Sectioning
namespace Text

theorem byteLength_cons (c : Char) (cs : List Char) :
    byteLength (c :: cs) = c.utf8Size + byteLength cs := rfl

theorem byteLength_eq_zero {cs : List Char} (h : byteLength cs = 0) : cs = [] := by
  cases cs with
  | nil => rfl
  | cons c cs =>
    have hpos := c.utf8Size_pos
    rw [byteLength_cons] at h
    omega

theorem octets_append (us vs : List Char) : octets (us ++ vs) = octets us ++ octets vs := by
  induction us with
  | nil => rfl
  | cons u us ih => simp only [List.cons_append, octets, ih, List.append_assoc]

theorem drop_octets (us vs : List Char) :
    (octets (us ++ vs)).drop (byteLength us) = octets vs := by
  rw [octets_append, ← length_octets us, List.drop_left]

theorem laterOctets_of_utf8Size {c : Char} (h : c.utf8Size = 1) : laterOctets c = [] := by
  rw [laterOctets, h]
  rfl

theorem first_notMem_laterOctets (c d : Char) : Octet.first d ∉ laterOctets c := by
  intro h
  exact absurd (List.eq_of_mem_replicate h) (by simp)

/-! ## Cutting -/

theorem dropBytes?_append (us vs : List Char) :
    dropBytes? (byteLength us) (us ++ vs) = some vs := by
  induction us with
  | nil => rw [byteLength, List.nil_append, dropBytes?]
  | cons u us ih =>
    have hpos := u.utf8Size_pos
    obtain ⟨n, hn⟩ : ∃ n, byteLength (u :: us) = n + 1 :=
      ⟨byteLength (u :: us) - 1, by rw [byteLength_cons]; omega⟩
    have hle : u.utf8Size ≤ n + 1 := by rw [← hn, byteLength_cons]; omega
    have hsub : n + 1 - u.utf8Size = byteLength us := by rw [← hn, byteLength_cons]; omega
    rw [hn, List.cons_append, dropBytes?, if_pos hle, hsub, ih]

theorem exists_append_of_dropBytes? {n : Nat} {cs vs : List Char}
    (h : dropBytes? n cs = some vs) : ∃ us, cs = us ++ vs ∧ n = byteLength us := by
  fun_induction dropBytes? n cs with
  | case1 cs =>
    cases h
    exact ⟨[], rfl, rfl⟩
  | case2 => cases h
  | case3 n c cs hle ih =>
    obtain ⟨us, rfl, hus⟩ := ih h
    refine ⟨c :: us, rfl, ?_⟩
    rw [byteLength_cons]
    omega
  | case4 => cases h

theorem takeBytes?_append (us vs : List Char) :
    takeBytes? (byteLength us) (us ++ vs) = some us := by
  induction us with
  | nil => rw [byteLength, List.nil_append, takeBytes?]
  | cons u us ih =>
    have hpos := u.utf8Size_pos
    obtain ⟨n, hn⟩ : ∃ n, byteLength (u :: us) = n + 1 :=
      ⟨byteLength (u :: us) - 1, by rw [byteLength_cons]; omega⟩
    have hle : u.utf8Size ≤ n + 1 := by rw [← hn, byteLength_cons]; omega
    have hsub : n + 1 - u.utf8Size = byteLength us := by rw [← hn, byteLength_cons]; omega
    rw [hn, List.cons_append, takeBytes?, if_pos hle, hsub, ih]
    rfl

theorem exists_append_of_takeBytes? {n : Nat} {cs us : List Char}
    (h : takeBytes? n cs = some us) : ∃ vs, cs = us ++ vs ∧ n = byteLength us := by
  fun_induction takeBytes? n cs generalizing us with
  | case1 cs =>
    cases h
    exact ⟨cs, rfl, rfl⟩
  | case2 => cases h
  | case3 n c cs hle ih =>
    obtain ⟨us', hus', rfl⟩ := Option.map_eq_some_iff.1 h
    obtain ⟨vs, rfl, hn⟩ := ih hus'
    refine ⟨vs, rfl, ?_⟩
    rw [byteLength_cons]
    omega
  | case4 => cases h

/-- The text between the ends of two of its beginnings. -/
theorem cut?_append (us vs ws : List Char) :
    cut? (byteLength us) (byteLength (us ++ vs)) (us ++ vs ++ ws) = some vs := by
  have hle : byteLength us ≤ byteLength (us ++ vs) := by rw [byteLength_append]; omega
  have hsub : byteLength (us ++ vs) - byteLength us = byteLength vs := by
    rw [byteLength_append]; omega
  rw [cut?, if_pos hle, List.append_assoc, dropBytes?_append, hsub]
  exact takeBytes?_append vs ws

/-- Only offsets between characters cut a text. -/
theorem exists_append_of_cut? {m n : Nat} {cs ws : List Char} (h : cut? m n cs = some ws) :
    ∃ us vs, cs = us ++ (ws ++ vs) ∧ m = byteLength us ∧ n = byteLength (us ++ ws) := by
  unfold cut? at h
  split at h
  · next hle =>
    obtain ⟨rest, hdrop, htake⟩ := Option.bind_eq_some_iff.1 h
    obtain ⟨us, rfl, hm⟩ := exists_append_of_dropBytes? hdrop
    obtain ⟨vs, rfl, hn⟩ := exists_append_of_takeBytes? htake
    refine ⟨us, vs, rfl, hm, ?_⟩
    rw [byteLength_append]
    omega
  · cases h

/-- Of two beginnings of a text the one with fewer bytes is a beginning of the
other. -/
theorem exists_append_of_byteLength_le {us vs us' vs' : List Char} (h : us ++ vs = us' ++ vs')
    (hle : byteLength us ≤ byteLength us') : ∃ ws, us' = us ++ ws ∧ vs = ws ++ vs' := by
  rcases List.append_eq_append_iff.1 h with ⟨ws, hus', hvs⟩ | ⟨ws, hus, hvs'⟩
  · exact ⟨ws, hus', hvs⟩
  · rw [hus, byteLength_append] at hle
    have hws : ws = [] := byteLength_eq_zero (by omega)
    subst hws
    exact ⟨[], by simpa using hus.symm, by simpa using hvs'.symm⟩

theorem append_inj_of_byteLength_eq {us vs us' vs' : List Char} (h : us ++ vs = us' ++ vs')
    (he : byteLength us = byteLength us') : us = us' ∧ vs = vs' := by
  obtain ⟨ws, hus', hvs⟩ := exists_append_of_byteLength_le h (Nat.le_of_eq he)
  rw [hus', byteLength_append] at he
  have hws : ws = [] := byteLength_eq_zero (by omega)
  subst hws
  exact ⟨by simpa using hus'.symm, by simpa using hvs⟩

/-! ## Octets that begin a character -/

theorem exists_of_drop_laterOctets {c d : Char} {n : Nat} {os rest : List Octet}
    (h : (laterOctets c ++ os).drop n = .first d :: rest) :
    (laterOctets c).length ≤ n ∧ os.drop (n - (laterOctets c).length) = .first d :: rest := by
  rw [List.drop_append] at h
  by_cases hn : (laterOctets c).length ≤ n
  · rw [List.drop_eq_nil_of_le hn, List.nil_append] at h
    exact ⟨hn, h⟩
  · exfalso
    have hmem : Octet.first d ∈ (laterOctets c).drop n := by
      cases hd : (laterOctets c).drop n with
      | nil => rw [List.drop_eq_nil_iff] at hd; omega
      | cons o os' =>
        rw [hd, List.cons_append, List.cons.injEq] at h
        rw [← h.1]
        exact List.mem_cons_self
    exact first_notMem_laterOctets c d (List.mem_of_mem_drop hmem)

/-- An octet that begins a character stands where a beginning of the text
ends. -/
theorem exists_of_drop_octets {cs : List Char} {n : Nat} {d : Char} {rest : List Octet}
    (h : (octets cs).drop n = .first d :: rest) :
    ∃ us vs, cs = us ++ d :: vs ∧ n = byteLength us ∧ rest = laterOctets d ++ octets vs := by
  induction cs generalizing n with
  | nil => simp [octets] at h
  | cons c cs ih =>
    cases n with
    | zero =>
      simp only [octets, List.drop_zero, List.cons.injEq, Octet.first.injEq] at h
      obtain ⟨rfl, rfl⟩ := h
      exact ⟨[], cs, rfl, rfl, rfl⟩
    | succ n =>
      simp only [octets, List.drop_succ_cons] at h
      obtain ⟨hle, hrest⟩ := exists_of_drop_laterOctets h
      obtain ⟨us, vs, rfl, hn, hr⟩ := ih hrest
      rw [length_laterOctets] at hle hn
      have hpos := c.utf8Size_pos
      refine ⟨c :: us, vs, rfl, ?_, hr⟩
      rw [byteLength_cons]
      omega

end Text
end Sectioning
