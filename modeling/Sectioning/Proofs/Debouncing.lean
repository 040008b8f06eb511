/-
The deadline of a schedule stands for the last request.

A log lists the calls that were made of a schedule with their answers.  A request
stands in a log as long as no later call is a request or takes it (`Stands`).  Each
call either puts its own due time in place of the deadline, or takes the deadline
away, or leaves it alone (`deadline_apply`), and so the deadline is at any time the
due time of the request that stands (`explains_run`).  Nothing is asked of the times
in a log: they may go backwards.
-/
import Sectioning.Update.Schedule

namespace Sectioning
namespace Schedule

/-- What can be asked of a schedule. -/
inductive Call where
  | request (trigger : Trigger) (now : Nat)
  | fileChanged (now : Nat)
  | takeDue (now : Nat)
  deriving DecidableEq

namespace Call

/-- Makes a call of a schedule.  A request has no answer of its own and counts as
answered with no. -/
def apply (s : Schedule) : Call → Bool × Schedule
  | request trigger now => (false, s.request trigger now)
  | fileChanged now => (false, s.fileChanged now)
  | takeDue now => s.takeDue now

/-- When the rebuild is due that a call asks for.  A change asks for none where only
saves are acted on, and a written file is a save there. -/
def due? (f : Frequency) : Call → Option Nat
  | request .saved now => some now
  | request .changed now => f.delay?.map (now + ·)
  | fileChanged now => some (f.delay?.elim now (now + ·))
  | takeDue _ => none

end Call

/-- The calls with their answers. -/
def log (s : Schedule) : List Call → List (Call × Bool)
  | [] => []
  | c :: cs => (c, (c.apply s).1) :: log (c.apply s).2 cs

/-- The schedule after some calls. -/
def run (s : Schedule) (cs : List Call) : Schedule :=
  cs.foldl (fun s c => (c.apply s).2) s

/-- The call `c` asks for a rebuild at the time `due`, and after it nothing else is
asked for and nothing is taken. -/
def Stands (f : Frequency) (calls : List (Call × Bool)) (c : Call) (due : Nat) : Prop :=
  ∃ earlier later, calls = earlier ++ (c, false) :: later ∧ c.due? f = some due ∧
    ∀ r ∈ later, r.1.due? f = none ∧ r.2 = false

/-! ## One call -/

section

variable {s : Schedule} {f : Frequency} {c d : Call} {due now : Nat}
  {calls : List (Call × Bool)} {answer : Bool}

theorem fst_takeDue : (s.takeDue now).1 = s.isDue now := by
  unfold takeDue
  split
  · next h => exact h.symm
  · next h => exact (Bool.eq_false_iff.2 h).symm

theorem takeDue_eq_true_iff :
    (s.takeDue now).1 = true ↔ ∃ due, s.deadline = some due ∧ due ≤ now := by
  rw [fst_takeDue, isDue, Option.any_eq_true_iff_get]
  cases s.deadline with
  | none => simp
  | some due => simp

theorem frequency_apply (s : Schedule) (c : Call) : (c.apply s).2.frequency = s.frequency := by
  have hrequest : ∀ trigger now, (s.request trigger now).frequency = s.frequency := by
    intro trigger now
    unfold request
    split <;> rfl
  cases c with
  | request trigger now => exact hrequest trigger now
  | fileChanged now => exact hrequest _ now
  | takeDue now =>
    change (s.takeDue now).2.frequency = s.frequency
    unfold takeDue
    split <;> rfl

theorem deadline_request (s : Schedule) (trigger : Trigger) (now : Nat) :
    (s.request trigger now).deadline =
      ((Call.request trigger now).due? s.frequency).or s.deadline := by
  unfold request
  cases trigger with
  | saved => rfl
  | changed => cases hdelay : s.frequency.delay? <;> simp [Call.due?, hdelay]

theorem deadline_fileChanged (s : Schedule) (now : Nat) :
    (s.fileChanged now).deadline =
      ((Call.fileChanged now).due? s.frequency).or s.deadline := by
  rw [fileChanged, deadline_request]
  cases h : s.frequency <;> rfl

theorem deadline_takeDue (s : Schedule) (now : Nat) :
    (s.takeDue now).2.deadline = if (s.takeDue now).1 then none else s.deadline := by
  rw [fst_takeDue]
  unfold takeDue
  split <;> rfl

/-- A call that is answered with yes takes the deadline.  Any other call sets its
own, if it has one. -/
theorem deadline_apply (s : Schedule) (c : Call) :
    (c.apply s).2.deadline =
      if (c.apply s).1 then none else (c.due? s.frequency).or s.deadline := by
  cases c with
  | request trigger now => exact deadline_request s trigger now
  | fileChanged now => exact deadline_fileChanged s now
  | takeDue now => exact deadline_takeDue s now

theorem due?_of_apply (h : (c.apply s).1 = true) : c.due? f = none := by
  cases c with
  | request trigger now => cases h
  | fileChanged now => cases h
  | takeDue now => rfl

/-! ## A log that grows -/

theorem not_stands_nil : ¬ Stands f [] c due := by
  rintro ⟨earlier, later, h, -⟩
  simp at h

/-- After one more call that call stands, or what stood before does. -/
theorem stands_append_iff :
    Stands f (calls ++ [(d, answer)]) c due ↔
      (c = d ∧ answer = false ∧ d.due? f = some due) ∨
      (d.due? f = none ∧ answer = false ∧ Stands f calls c due) := by
  constructor
  · rintro ⟨earlier, later, hcalls, hdue, hlater⟩
    rcases List.eq_nil_or_concat later with rfl | ⟨later, r, rfl⟩
    · obtain ⟨-, hlast⟩ := List.append_inj' hcalls rfl
      cases hlast
      exact .inl ⟨rfl, rfl, hdue⟩
    · rw [List.concat_eq_append, ← List.cons_append, ← List.append_assoc] at hcalls
      obtain ⟨rfl, hlast⟩ := List.append_inj' hcalls rfl
      cases hlast
      obtain ⟨hnone, hno⟩ := hlater (d, answer) (by simp)
      exact .inr ⟨hnone, hno, earlier, later, rfl, hdue, fun r hr => hlater r (by simp [hr])⟩
  · rintro (⟨rfl, rfl, hdue⟩ | ⟨hnone, rfl, earlier, later, rfl, hdue, hlater⟩)
    · exact ⟨calls, [], rfl, hdue, by simp⟩
    · refine ⟨earlier, later ++ [(d, false)], by simp, hdue, fun r hr => ?_⟩
      rcases List.mem_append.1 hr with hr | hr
      · exact hlater r hr
      · rw [List.mem_singleton.1 hr]
        exact ⟨hnone, rfl⟩

/-- The calls explain the schedule: its deadline is that of the call that stands. -/
structure Explains (f : Frequency) (calls : List (Call × Bool)) (s : Schedule) : Prop where
  frequency_eq : s.frequency = f
  deadline_iff : ∀ due, s.deadline = some due ↔ ∃ c, Stands f calls c due

theorem explains_idle (f : Frequency) : Explains f [] (idle f) where
  frequency_eq := rfl
  deadline_iff due := by
    constructor
    · intro h
      cases h
    · rintro ⟨c, h⟩
      exact absurd h not_stands_nil

theorem explains_apply (h : Explains f calls s) (c : Call) :
    Explains f (calls ++ [(c, (c.apply s).1)]) (c.apply s).2 where
  frequency_eq := (frequency_apply s c).trans h.frequency_eq
  deadline_iff due := by
    rw [deadline_apply, h.frequency_eq]
    simp only [stands_append_iff]
    cases hanswer : (c.apply s).1 with
    | true => simp [due?_of_apply hanswer]
    | false =>
      cases hdue : c.due? f with
      | none => simp [h.deadline_iff due]
      | some time => simp

end

/-! ## Whole runs -/

theorem explains_run {f : Frequency} {calls : List (Call × Bool)} {s : Schedule}
    (h : Explains f calls s) (cs : List Call) : Explains f (calls ++ log s cs) (run s cs) := by
  induction cs generalizing calls s with
  | nil =>
    rw [log, List.append_nil]
    exact h
  | cons c cs ih =>
    have hrest := ih (explains_apply h c)
    rw [List.append_assoc] at hrest
    exact hrest

/-- A request is pending exactly if one stands, and it is taken exactly if it is due.
The time until then is what is left of it: at its end the request is taken, and
before that it is not. -/
theorem run_idle_spec (f : Frequency) (cs : List Call) :
    ((run (idle f) cs).isPending = true ↔ ∃ c due, Stands f (log (idle f) cs) c due) ∧
    (∀ now, ((run (idle f) cs).takeDue now).1 = true ↔
      ∃ c due, Stands f (log (idle f) cs) c due ∧ due ≤ now) ∧
    (∀ now, (run (idle f) cs).isPending = false → (run (idle f) cs).dueIn? now = none) ∧
    ∀ c due now, Stands f (log (idle f) cs) c due →
      (run (idle f) cs).dueIn? now = some (due - now) ∧
      ((run (idle f) cs).takeDue (now + (due - now))).1 = true ∧
      ∀ time, now ≤ time → time < now + (due - now) →
        ((run (idle f) cs).takeDue time).1 = false := by
  have h := explains_run (explains_idle f) cs
  rw [List.nil_append] at h
  generalize run (idle f) cs = s at h ⊢
  generalize log (idle f) cs = calls at h ⊢
  have htaken : ∀ now, (s.takeDue now).1 = true ↔ ∃ c due, Stands f calls c due ∧ due ≤ now := by
    intro now
    rw [takeDue_eq_true_iff, exists_comm]
    simp only [h.deadline_iff, exists_and_right]
  refine ⟨?_, htaken, ?_, ?_⟩
  · rw [isPending, Option.isSome_iff_exists, exists_comm]
    simp only [h.deadline_iff]
  · intro now hidle
    rw [isPending, Option.isSome_eq_false_iff, Option.isNone_iff_eq_none] at hidle
    rw [dueIn?, hidle]
    rfl
  · intro c due now hstands
    have hdeadline : s.deadline = some due := (h.deadline_iff due).2 ⟨c, hstands⟩
    refine ⟨by rw [dueIn?, hdeadline]; rfl, ?_, ?_⟩
    · exact (htaken _).2 ⟨c, due, hstands, by omega⟩
    · intro time hnow htime
      rw [Bool.eq_false_iff, Ne, takeDue_eq_true_iff]
      rintro ⟨due', hdue', hle⟩
      rw [hdeadline, Option.some.injEq] at hdue'
      omega

end Schedule
end Sectioning
