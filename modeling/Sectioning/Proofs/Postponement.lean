/-
When a save is put off.

A save makes a rebuild due at once, but there is only one deadline, and it is that of
the last call that asks for a rebuild (`deadline_run_of_last`).  So a save that is not
taken yet is put off by a later change, which is due only after the quiet time.  Where
only saves are acted on changes are passed over, and a save is due by the last call
unless that call is made at an earlier time.  These are the two ways to put off a save
(`PutOff`), and there is no other one (`takeDue_after_save_iff`).
-/
import Mathlib.Data.List.Induction
import Sectioning.Proofs.Debouncing

namespace Sectioning
namespace Schedule

namespace Call

def time : Call → Nat
  | request _ now => now
  | fileChanged now => now
  | takeDue now => now

/-- Whether a call takes nothing. -/
def isRequest : Call → Bool
  | takeDue _ => false
  | _ => true

def isSave : Call → Bool
  | request .saved _ => true
  | _ => false

def isChange : Call → Bool
  | request .changed _ => true
  | _ => false

end Call

/-- The time of the last of some calls, the first of which is `c`. -/
def lastTime (c : Call) (cs : List Call) : Nat :=
  ((c :: cs).getLast (List.cons_ne_nil c cs)).time

/-- The rebuild that was asked for is not due when the last of some calls is made. -/
inductive PutOff (f : Frequency) : List Call → Prop where
  /-- The last call is no save, and it has to wait for the quiet time. -/
  | quiet {earlier : List Call} {c : Call} {delay : Nat} : f.delay? = some delay → 0 < delay →
      c.isSave = false → PutOff f (earlier ++ [c])
  /-- Changes are passed over, and the last one is made before the time of the last other
  call. -/
  | backwards {earlier later : List Call} {c : Call} : f.delay? = none → c.isChange = false →
      (∀ r ∈ later, r.isChange = true) → lastTime c later < c.time →
      PutOff f (earlier ++ c :: later)

section

variable {s : Schedule} {f : Frequency} {c : Call} {cs : List Call} {delay due : Nat}

theorem lastTime_eq {first : Call} {earlier later : List Call}
    (h : first :: cs = earlier ++ c :: later) : lastTime first cs = lastTime c later := by
  have hlast : ∀ ds (hds : ds ≠ []), ds = earlier ++ c :: later →
      ds.getLast hds = (c :: later).getLast (List.cons_ne_nil c later) := by
    rintro ds hds rfl
    exact List.getLast_append_of_ne_nil hds (List.cons_ne_nil c later)
  rw [lastTime, lastTime, hlast _ _ h]

/-! ## When calls are due -/

/-- With a quiet time every request asks for a rebuild, a save at once and the others
after that time. -/
theorem due?_of_delay? (hdelay : f.delay? = some delay) (hc : c.isRequest = true) :
    c.due? f = some (c.time + if c.isSave then 0 else delay) := by
  cases c with
  | request trigger now => cases trigger <;> simp [Call.due?, Call.time, Call.isSave, hdelay]
  | fileChanged now => simp [Call.due?, Call.time, Call.isSave, hdelay]
  | takeDue now => cases hc

/-- Without one a request is due at its own time, and a change asks for nothing. -/
theorem due?_of_no_delay (hdelay : f.delay? = none) (hc : c.isRequest = true) :
    c.due? f = if c.isChange then none else some c.time := by
  cases c with
  | request trigger now => cases trigger <;> simp [Call.due?, Call.time, Call.isChange, hdelay]
  | fileChanged now => simp [Call.due?, Call.time, Call.isChange, hdelay]
  | takeDue now => cases hc

/-! ## The deadline after some calls -/

theorem run_append (s : Schedule) (cs ds : List Call) : run s (cs ++ ds) = run (run s cs) ds := by
  rw [run, List.foldl_append]
  rfl

theorem frequency_run (s : Schedule) (cs : List Call) : (run s cs).frequency = s.frequency := by
  induction cs generalizing s with
  | nil => rfl
  | cons c cs ih =>
    show (run (c.apply s).2 cs).frequency = _
    rw [ih, frequency_apply]

theorem fst_apply_of_isRequest (hc : c.isRequest = true) : (c.apply s).1 = false := by
  cases c with
  | request trigger now => rfl
  | fileChanged now => rfl
  | takeDue now => cases hc

/-- Requests that ask for no rebuild leave the deadline alone. -/
theorem deadline_run_of_idle (hcs : ∀ c ∈ cs, c.isRequest = true ∧ c.due? s.frequency = none) :
    (run s cs).deadline = s.deadline := by
  induction cs generalizing s with
  | nil => rfl
  | cons c cs ih =>
    have hc := hcs c List.mem_cons_self
    show (run (c.apply s).2 cs).deadline = _
    rw [ih, deadline_apply, fst_apply_of_isRequest hc.1, hc.2]
    · rfl
    · intro r hr
      rw [frequency_apply]
      exact hcs r (List.mem_cons_of_mem c hr)

/-- The deadline is that of the last request that asks for a rebuild. -/
theorem deadline_run_of_last {earlier later : List Call} (hdue : c.due? s.frequency = some due)
    (hlater : ∀ r ∈ later, r.isRequest = true ∧ r.due? s.frequency = none) :
    (run s (earlier ++ c :: later)).deadline = some due := by
  have hrequest : c.isRequest = true := by
    cases c with
    | request trigger now => rfl
    | fileChanged now => rfl
    | takeDue now => cases hdue
  rw [run_append]
  show (run (c.apply (run s earlier)).2 later).deadline = _
  rw [deadline_run_of_idle, deadline_apply, fst_apply_of_isRequest hrequest, frequency_run, hdue]
  · rfl
  · intro r hr
    rw [frequency_apply, frequency_run]
    exact hlater r hr

/-- Of calls that begin with one that is no change there is a last one that is none. -/
theorem exists_last_not_isChange (hc : c.isChange = false) (cs : List Call) :
    ∃ earlier d later, c :: cs = earlier ++ d :: later ∧ d.isChange = false ∧
      ∀ r ∈ later, r.isChange = true := by
  induction cs using List.reverseRecOn with
  | nil => exact ⟨[], c, [], rfl, hc, by simp⟩
  | append_singleton cs r ih =>
    obtain ⟨earlier, d, later, hcs, hd, hlater⟩ := ih
    by_cases hr : r.isChange = true
    · refine ⟨earlier, d, later ++ [r], ?_, hd, ?_⟩
      · rw [← List.cons_append, hcs, List.append_assoc, List.cons_append]
      · intro r' hr'
        rcases List.mem_append.1 hr' with hr' | hr'
        · exact hlater r' hr'
        · rw [List.mem_singleton.1 hr']
          exact hr
    · exact ⟨c :: cs, r, [], rfl, by simpa using hr, by simp⟩

theorem takeDue_of_deadline (h : s.deadline = some due) (now : Nat) :
    (s.takeDue now).1 = true ↔ due ≤ now := by
  rw [takeDue_eq_true_iff, h]
  simp

/-! ## Saves -/

/-- With a quiet time the last call sets the deadline, whatever it is. -/
theorem takeDue_iff_of_delay? (hdelay : s.frequency.delay? = some delay)
    (hc : c.isRequest = true) (earlier : List Call) :
    ((run s (earlier ++ [c])).takeDue c.time).1 = true ↔ ¬ PutOff s.frequency (earlier ++ [c]) := by
  have hdeadline := @deadline_run_of_last s c _ earlier [] (due?_of_delay? hdelay hc) (by simp)
  rw [takeDue_of_deadline hdeadline]
  constructor
  · intro hle hput
    generalize hds : earlier ++ [c] = ds at hput
    cases hput with
    | quiet hsome hpos hsave =>
      obtain ⟨-, hlast⟩ := List.append_inj' hds rfl
      rw [List.cons.injEq] at hlast
      rw [hdelay, Option.some.injEq] at hsome
      rw [hlast.1, hsave, if_neg (by simp)] at hle
      omega
    | backwards hnone =>
      rw [hdelay] at hnone
      cases hnone
  · intro hput
    by_cases hsave : c.isSave = true
    · rw [if_pos hsave]
      omega
    · rw [if_neg hsave]
      by_contra hlt
      exact hput (.quiet hdelay (by omega) (by simpa using hsave))

/-- Without a quiet time the last call that is no change sets the deadline. -/
theorem takeDue_iff_of_no_delay (hdelay : s.frequency.delay? = none) (hc : c.isChange = false)
    (hcs : ∀ r ∈ c :: cs, r.isRequest = true) :
    ((run s (c :: cs)).takeDue (lastTime c cs)).1 = true ↔ ¬ PutOff s.frequency (c :: cs) := by
  have hset : ∀ {earlier d later}, c :: cs = earlier ++ d :: later →
      d.isChange = false → (∀ r ∈ later, r.isChange = true) →
      (((run s (c :: cs)).takeDue (lastTime c cs)).1 = true ↔ d.time ≤ lastTime d later) := by
    intro earlier d later hsplit hd hlater
    have hdue : d.due? s.frequency = some d.time := by
      rw [due?_of_no_delay hdelay (hcs d (by rw [hsplit]; simp)), hd, if_neg (by simp)]
    have hidle : ∀ r ∈ later, r.isRequest = true ∧ r.due? s.frequency = none := by
      intro r hr
      have hrequest := hcs r (by rw [hsplit]; simp [hr])
      rw [due?_of_no_delay hdelay hrequest, hlater r hr, if_pos rfl]
      exact ⟨hrequest, rfl⟩
    rw [lastTime_eq hsplit, hsplit, takeDue_of_deadline (deadline_run_of_last hdue hidle)]
  constructor
  · intro htaken hput
    generalize hds : c :: cs = ds at hput
    cases hput with
    | quiet hsome =>
      rw [hdelay] at hsome
      cases hsome
    | backwards _ hd hlater hlt =>
      have hle := (hset hds hd hlater).1 htaken
      omega
  · intro hput
    obtain ⟨earlier, d, later, hsplit, hd, hlater⟩ := exists_last_not_isChange hc cs
    rw [hset hsplit hd hlater]
    by_contra hlt
    rw [hsplit] at hput
    exact hput (.backwards hdelay hd hlater (by omega))

end

/-- A save is honoured by the time of the last call after it, unless it is put off. -/
theorem takeDue_after_save_iff (s : Schedule) (t : Nat) (cs : List Call)
    (hcs : ∀ c ∈ cs, c.isRequest = true) :
    ((run s (.request .saved t :: cs)).takeDue (lastTime (.request .saved t) cs)).1 = true ↔
      ¬ PutOff s.frequency (.request .saved t :: cs) := by
  have hcalls : ∀ c ∈ Call.request .saved t :: cs, c.isRequest = true :=
    List.forall_mem_cons.2 ⟨rfl, hcs⟩
  cases hdelay : s.frequency.delay? with
  | none => exact takeDue_iff_of_no_delay hdelay rfl hcalls
  | some delay =>
    obtain ⟨earlier, c, hlast⟩ : ∃ earlier c, Call.request .saved t :: cs = earlier ++ [c] :=
      ⟨_, _, (List.dropLast_concat_getLast (List.cons_ne_nil _ cs)).symm⟩
    rw [lastTime_eq hlast, hlast]
    exact takeDue_iff_of_delay? hdelay (hcalls c (by rw [hlast]; simp)) earlier

/-- A second save makes good for a change after the first. -/
theorem not_putOff_of_second_save :
    ¬ PutOff .low [.request .saved 3, .fileChanged 5, .request .saved 9] :=
  (takeDue_after_save_iff (idle .low) 3 [.fileChanged 5, .request .saved 9] (by decide)).1
    (by decide)

/-- A change or a written file right after a save puts it off. -/
theorem save_not_due :
    ((run (idle .medium) [.request .saved 0, .request .changed 0]).takeDue 0).1 = false ∧
    ((run (idle .low) [.request .saved 0, .fileChanged 7]).takeDue 7).1 = false := by
  decide

end Schedule
end Sectioning
