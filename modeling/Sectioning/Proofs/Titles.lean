/-
What is left of a title when its comments are gone.
-/
import Sectioning.Heading.Title
import Sectioning.Proofs.Blanks

namespace Sectioning
namespace Title

theorem uncomment_of_ne {c : Char} (hesc : c ≠ '\\') (hcom : c ≠ '%') (cs : List Char) :
    uncomment false (c :: cs) = c :: uncomment false cs := by
  rw [uncomment.eq_5 c cs (fun h => absurd h hesc) (fun _ _ h => absurd h hesc), if_neg hcom]

theorem uncomment_percent (cs : List Char) : uncomment false ('%' :: cs) = uncomment true cs := by
  rw [uncomment.eq_5 '%' cs (by simp) (by simp), if_pos rfl]

theorem uncomment_escaped_percent (cs : List Char) :
    uncomment false ('\\' :: '%' :: cs) = '%' :: uncomment false cs := by
  rw [uncomment, if_pos rfl]

theorem uncomment_escaped {c : Char} (hc : c ≠ '%') (cs : List Char) :
    uncomment false ('\\' :: c :: cs) = '\\' :: c :: uncomment false cs := by
  rw [uncomment, if_neg hc]

variable {bs cs : List Char}

theorem clean_of_notMem (hesc : '\\' ∉ cs) (hcom : '%' ∉ cs) : clean cs = Text.collapse cs := by
  have huncomment : uncomment false cs = cs := by
    induction cs with
    | nil => rfl
    | cons c cs ih =>
      rw [List.mem_cons, not_or] at hesc hcom
      rw [uncomment_of_ne (Ne.symm hesc.1) (Ne.symm hcom.1), ih hesc.2 hcom.2]
  rw [clean, huncomment]

theorem clean_blanks (hbs : Text.isAllBlank bs = true) (hesc : '\\' ∉ bs ++ cs)
    (hcom : '%' ∉ bs ++ cs) : clean (bs ++ cs) = clean cs := by
  have hesc' : '\\' ∉ cs := fun h => hesc (List.mem_append_right bs h)
  have hcom' : '%' ∉ cs := fun h => hcom (List.mem_append_right bs h)
  rw [clean_of_notMem hesc hcom, clean_of_notMem hesc' hcom', Text.collapse, Text.collapse,
    Text.words_blanks hbs]

end Title
end Sectioning
