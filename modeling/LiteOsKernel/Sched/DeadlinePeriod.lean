import LiteOsKernel.Sched.DeadlineOrder
import Mathlib.Data.Int.GCD
import Mathlib.Data.Int.ModEq
import Mathlib.Tactic.Ring

/-! The search of EDFEnqueue for a period, with the parameters that the system calls and the kernel can install. -/
namespace LiteOsKernel.Sched.Deadline
open EdfSched

/-- LOS_SCHED_RR, LOS_SCHED_FIFO and LOS_SCHED_DEADLINE. -/
inductive Policy where
  | rr
  | fifo
  | deadline
  deriving DecidableEq

def OS_PROCESS_PRIORITY_HIGHEST : Int := 0
def OS_PROCESS_PRIORITY_LOWEST : Int := 31
def EINVAL : Int := 22
def EPERM : Int := 1

/-- priority and runTimeUs are one field, of a union. -/
structure LosSchedParam where
  runTimeUs : Int
  deadlineUs : Int
  periodUs : Int

def LosSchedParam.priority (p : LosSchedParam) : Int := p.runTimeUs

/-- A field of SchedParam with what is stored into it. -/
def LosSchedParam.schedParam (p : LosSchedParam) : SchedParam :=
  ⟨(p.runTimeUs%2^32).toNat,(p.deadlineUs%2^32).toNat,(p.periodUs%2^32).toNat⟩

/-- OsSchedulerParamCheck for every policy; a check that fails returns EINVAL. -/
def osSchedulerParamCheckPolicy (policy : Policy) (isThread : Bool) (p : LosSchedParam) : Bool :=
  if policy = .rr ∨ isThread ∧ policy = .fifo then
    decide (OS_PROCESS_PRIORITY_HIGHEST ≤ p.priority ∧ p.priority ≤ OS_PROCESS_PRIORITY_LOWEST)
  else if policy = .deadline then
    if p.runTimeUs < OS_SCHED_EDF_MIN_RUNTIME ∨ p.deadlineUs ≤ p.runTimeUs then false
    else if p.deadlineUs < OS_SCHED_EDF_MIN_DEADLINE ∨ OS_SCHED_EDF_MAX_DEADLINE < p.deadlineUs then false
    else !decide (p.periodUs < p.deadlineUs)
  else false

/-- UserTaskSchedulerCheck of a valid task; processPolicy is the policy of the calling process. -/
def userTaskSchedulerCheck (processPolicy policy : Policy) (schedParam : LosSchedParam) (policyFlag : Bool) : Int :=
  if osSchedulerParamCheckPolicy policy true schedParam = false then EINVAL
  else if policyFlag then
    if processPolicy ≠ .deadline ∧ policy = .deadline then EPERM
    else if processPolicy = .deadline ∧ policy ≠ .deadline then EPERM
    else 0
  else 0

/-- OS_CYCLE_TO_US on UINT64. -/
def cycleToUs (clock cycle : Nat) : Nat := ((cycle / clock) * 10^6 + (cycle % clock * 10^6 % 2^64) / clock) % 2^64

def edfSchedParamGet (clock : Nat) (taskCB : LosTaskCB) : SchedParam :=
  ⟨cycleToUs clock (taskCB.sp.runTime%2^64).toNat % 2^32,cycleToUs clock taskCB.sp.deadline % 2^32,
    cycleToUs clock taskCB.sp.period % 2^32⟩

/-- OsUserTaskSchedulerSet on a deadline task: the block with the parameters that EDFSchedParamModify is called with, before
the task is queued with them. isCapPermit is whether the process may set priorities. -/
def osUserTaskSchedulerSet (clock : Nat) (isCapPermit : Bool) (processPolicy policy : Policy) (schedParam : LosSchedParam)
    (policyFlag : Bool) (taskCB : LosTaskCB) : Except Int LosTaskCB :=
  let ret := userTaskSchedulerCheck processPolicy policy schedParam policyFlag
  if ret ≠ 0 then .error ret
  else
    let newPolicy := if policyFlag then policy else .deadline
    if newPolicy = .deadline then
      if !isCapPermit then .error EPERM else .ok (modifyBlock clock taskCB schedParam.schedParam)
    else .ok (modifyBlock clock taskCB (edfSchedParamGet clock taskCB))

/-- The blocks of deadline tasks with the parameters that can be installed: on creation or a change of the policy, by
OsSetProcessScheduler, and by OsUserTaskSchedulerSet. -/
inductive Installed (clock : Nat) : LosTaskCB → Prop
  | init (cb : LosTaskCB) (p : LosSchedParam) (isThread : Bool) (h : osSchedulerParamCheckPolicy .deadline isThread p = true) :
    Installed clock (edfTaskSchedParamInit clock cb p.schedParam)
  | setProcess (cb : LosTaskCB) (he : cb.isEDF = true) (p : LosSchedParam) (h : osSchedulerParamCheckPolicy .deadline false p = true) :
    Installed clock (modifyBlock clock cb p.schedParam)
  | setTask (isCapPermit : Bool) (processPolicy policy : Policy) (p : LosSchedParam) (policyFlag : Bool) (cb cb' : LosTaskCB)
    (he : cb.isEDF = true) (h : osUserTaskSchedulerSet clock isCapPermit processPolicy policy p policyFlag cb = .ok cb') :
    Installed clock cb'

/-- UINT64 arithmetic with a step p reaches x from f in one way or another if the two differ by a multiple of gcd(p,m). -/
private theorem orbit_iff {p m f x : Nat} (hm : 0 < m) : (∃ k, (f + k*p)%m = x) ↔ x < m ∧ x ≡ f [MOD p.gcd m] := by
  constructor
  · rintro ⟨k,rfl⟩
    refine ⟨Nat.mod_lt _ hm,?_⟩
    have h1 : (f + k*p)%m ≡ f + k*p [MOD p.gcd m] := (Nat.mod_modEq _ m).of_dvd (Nat.gcd_dvd_right p m)
    have h2 : f + k*p ≡ f + 0 [MOD p.gcd m] :=
      Nat.ModEq.add_left f ((Nat.modEq_zero_iff_dvd).mpr ((Nat.gcd_dvd_left p m).mul_left k))
    exact h1.trans h2
  · rintro ⟨hx,hmod⟩
    obtain ⟨t,ht⟩ := (Nat.modEq_iff_dvd.mp hmod.symm)
    have hb := Nat.gcd_eq_gcd_ab p m
    -- a coefficient of Bezout's identity, made positive
    refine ⟨((p.gcdA m * t) % m).toNat,?_⟩
    have hpos : (0:Int) ≤ (p.gcdA m * t) % m := Int.emod_nonneg _ (by omega)
    have hcong : ((f + ((p.gcdA m * t) % m).toNat * p : Nat) : Int) ≡ x [ZMOD m] := by
      push_cast
      rw [Int.toNat_of_nonneg hpos]
      have h1 : (p.gcdA m * t) % m * p ≡ p.gcdA m * t * p [ZMOD m] := (Int.mod_modEq _ _).mul_right _
      have h2 : p.gcdA m * t * p ≡ x - f [ZMOD m] := by
        rw [ht, hb]
        refine (Int.modEq_iff_dvd).mpr ⟨p.gcdB m * t,?_⟩
        ring
      have h3 := (h1.trans h2).add_left (f : Int)
      rwa [add_sub_cancel] at h3
    have hnat : f + ((p.gcdA m * t) % m).toNat * p ≡ x [MOD m] := (Int.natCast_modEq_iff).mp hcong
    rw [Nat.ModEq, Nat.mod_eq_of_lt hx] at hnat
    exact hnat

/-- A period that starts at x ends after currTime and has room for the run time, as UINT64 arithmetic has it. -/
def Fits (sched : SchedEDF) (currTime x : Nat) : Prop :=
  currTime < add64 x sched.deadline ∧ add64 x sched.runTime ≤ add64 x sched.deadline

instance (sched : SchedEDF) (currTime x : Nat) : Decidable (Fits sched currTime x) := inferInstanceAs (Decidable (_ ∧ _))

/-- The start of the last period. finishTime is a start itself in EDF_NEXT_PERIOD, and else the start plus the deadline of
the time when it was computed, made. -/
def prevStart (sched : SchedEDF) (currTime made : Nat) : Int :=
  match sched.flags with
  | .init => currTime
  | .nextPeriod => sched.finishTime
  | .unused | .waitForever => sched.finishTime - made

/-- The start that EDFEnqueue tries first. -/
def firstStart (sched : SchedEDF) (currTime : Nat) : Nat :=
  match sched.flags with
  | .init => currTime
  | .nextPeriod => sched.finishTime
  | .unused | .waitForever => add64 (add64 sched.finishTime (-sched.deadline)) sched.period

/-- The start that EDFEnqueue tries after k others, without the overflow of UINT64. -/
def triedStart (sched : SchedEDF) (currTime k : Nat) : Int :=
  match sched.flags with
  | .init => currTime + k*sched.period
  | .nextPeriod => sched.finishTime + k*sched.period
  | .unused | .waitForever => sched.finishTime - sched.deadline + (k + 1)*sched.period

def tried (sched : SchedEDF) (currTime k : Nat) : Nat := (triedStart sched currTime k%2^64).toNat

/-- What is added to finishTime or taken from it because the deadline has changed since it was computed. -/
def deadlineChange (sched : SchedEDF) (made : Nat) : Int :=
  match sched.flags with
  | .init | .nextPeriod => 0
  | .unused | .waitForever => made - sched.deadline

variable {sched : SchedEDF} {currTime start x fuel clock made k : Nat} {s : EdfSched} {t : Nat}

private theorem add64_natCast (a b : Nat) : add64 a (b : Int) = (a + b)%2^64 := by
  rw [add64]
  omega

private theorem triedStart_succ (sched : SchedEDF) (currTime k : Nat) :
    triedStart sched currTime (k + 1) = triedStart sched currTime k + sched.period := by
  rw [triedStart, triedStart]
  cases sched.flags <;> push_cast <;> ring

private theorem triedStart_add (sched : SchedEDF) (currTime k : Nat) :
    triedStart sched currTime k = triedStart sched currTime 0 + k*sched.period := by
  induction k with
  | zero => simp
  | succ k ih =>
    rw [triedStart_succ, ih]
    push_cast
    ring

/-- The starts tried lie whole periods after the last one, but for a change of the deadline. -/
private theorem triedStart_eq (sched : SchedEDF) (currTime made k : Nat) : ∃ n : Int,
    triedStart sched currTime k = prevStart sched currTime made + deadlineChange sched made + n*sched.period := by
  rw [triedStart, prevStart, deadlineChange]
  cases sched.flags with
  | init => exact ⟨k,by ring⟩
  | nextPeriod => exact ⟨k,by ring⟩
  | unused => exact ⟨k + 1,by ring⟩
  | waitForever => exact ⟨k + 1,by ring⟩

private theorem tried_lt (sched : SchedEDF) (currTime k : Nat) : tried sched currTime k < 2^64 := by
  rw [tried]
  omega

private theorem tried_succ (sched : SchedEDF) (currTime k : Nat) :
    tried sched currTime (k + 1) = add64 (tried sched currTime k) sched.period := by
  rw [tried, tried, triedStart_succ, add64]
  omega

private theorem tried_add (sched : SchedEDF) (currTime k : Nat) :
    tried sched currTime k = (tried sched currTime 0 + k*sched.period)%2^64 := by
  induction k with
  | zero => rw [Nat.zero_mul, Nat.add_zero, Nat.mod_eq_of_lt (tried_lt _ _ _)]
  | succ k ih => rw [tried_succ, add64_natCast, ih, Nat.mod_add_mod, Nat.succ_mul, Nat.add_assoc]

private theorem tried_zero (hf : sched.finishTime < 2^64) (hc : currTime < 2^64) : tried sched currTime 0 = firstStart sched currTime := by
  rw [tried, triedStart, firstStart, add64, add64]
  cases sched.flags <;> push_cast <;> omega

/-- Where k starts fail, the search goes on with the next. -/
private theorem periodLoop_some (h : periodLoop sched currTime fuel (tried sched currTime k) = some x) :
    ∃ m, x = tried sched currTime (k + m) ∧ Fits sched currTime x ∧ ∀ j < m, ¬Fits sched currTime (tried sched currTime (k + j)) := by
  induction fuel generalizing k with
  | zero => cases h
  | succ fuel ih =>
    rw [periodLoop] at h
    split_ifs at h with hc
    · rw [← tried_succ] at h
      obtain ⟨m,hx,hfit,hno⟩ := ih h
      refine ⟨m + 1,by rw [hx]; congr 1; omega,hfit,fun j hj => ?_⟩
      rcases j with _ | j
      · rintro ⟨h1,h2⟩
        rw [Nat.add_zero] at h1 h2
        omega
      · rw [show k + (j + 1) = k + 1 + j by omega]
        exact hno j (by omega)
    · cases h
      rw [not_or, not_le, not_lt] at hc
      exact ⟨0,rfl,hc,fun j hj => absurd hj (Nat.not_lt_zero j)⟩

/-- It ends if some start fits. -/
private theorem periodLoop_of_fits (m : Nat) (h : Fits sched currTime (tried sched currTime (k + m))) :
    ∃ fuel x, periodLoop sched currTime fuel (tried sched currTime k) = some x := by
  induction m generalizing k with
  | zero =>
    refine ⟨1,tried sched currTime k,?_⟩
    rw [periodLoop, if_neg]
    rw [not_or, not_le, not_lt]
    exact h
  | succ m ih =>
    obtain ⟨fuel,x,hx⟩ := ih (k := k + 1) (by rwa [show k + 1 + m = k + (m + 1) by omega])
    by_cases hc : add64 (tried sched currTime k) sched.deadline ≤ currTime ∨
      add64 (tried sched currTime k) sched.deadline < add64 (tried sched currTime k) sched.runTime
    · refine ⟨fuel + 1,x,?_⟩
      rw [periodLoop]
      rw [if_pos hc, ← tried_succ, hx]
    · refine ⟨1,tried sched currTime k,?_⟩
      rw [periodLoop]
      rw [if_neg hc]

/-- Some time that differs from the first start by a multiple of gcd(period,2^64) fits. -/
def PeriodFits (sched : SchedEDF) (currTime : Nat) : Prop :=
  ∃ x, x < 2^64 ∧ x ≡ firstStart sched currTime [MOD sched.period.gcd (2^64)] ∧ Fits sched currTime x

/-- The change of the deadline, with 2^64 for each overflow before the first start that fits, comes to whole periods. -/
def OnGrid (sched : SchedEDF) (currTime made : Nat) : Prop :=
  ∀ k, Fits sched currTime (tried sched currTime k) → (∀ j < k, ¬Fits sched currTime (tried sched currTime j)) →
    (sched.period : Int) ∣ deadlineChange sched made - 2^64*(triedStart sched currTime k/2^64)

private theorem periodLoop_ends_iff (hf : sched.finishTime < 2^64) (hc : currTime < 2^64) :
    (∃ fuel x, periodLoop sched currTime fuel (firstStart sched currTime) = some x) ↔ PeriodFits sched currTime := by
  have hz := tried_zero hf hc
  constructor
  · rintro ⟨fuel,x,h⟩
    rw [← hz] at h
    obtain ⟨m,hx,hfit,-⟩ := periodLoop_some h
    rw [Nat.zero_add, tried_add] at hx
    obtain ⟨hlt,hmod⟩ := (orbit_iff (by decide)).mp ⟨m,hx.symm⟩
    exact ⟨x,hlt,hz ▸ hmod,hfit⟩
  · rintro ⟨x,hlt,hmod,hfit⟩
    obtain ⟨m,hm⟩ := (orbit_iff (by decide)).mpr ⟨hlt,hmod⟩
    rw [← hz, ← tried_add] at hm
    rw [← hm] at hfit
    rw [← hz]
    exact periodLoop_of_fits m (by rwa [Nat.zero_add])

/-- A start tried is a start of a period exactly where deadline changes and overflows come to whole periods. -/
private theorem tried_modEq_iff (sched : SchedEDF) (currTime made k : Nat) :
    (tried sched currTime k : Int) ≡ prevStart sched currTime made [ZMOD sched.period] ↔
      (sched.period : Int) ∣ deadlineChange sched made - 2^64*(triedStart sched currTime k/2^64) := by
  obtain ⟨n,hn⟩ := triedStart_eq sched currTime made k
  have hx : (tried sched currTime k : Int) - prevStart sched currTime made =
      deadlineChange sched made - 2^64*(triedStart sched currTime k/2^64) + n*sched.period := by
    have hdiv := Int.emod_add_mul_ediv (triedStart sched currTime k) (2^64)
    rw [tried, Int.toNat_of_nonneg (Int.emod_nonneg _ (by norm_num))]
    linarith
  rw [Int.modEq_comm, Int.modEq_iff_dvd, hx]
  exact (Int.dvd_add_left (Int.dvd_mul_left _ _))

/-- EDFEnqueue ends. Then the task waits for the start of a period that is to come, or it is ready in a period that has started,
until the deadline of that and with all its run time; the period is whole periods away from the last one. -/
structure PeriodOk (s : EdfSched) (t currTime made : Nat) : Prop where
  ends : ∃ fuel s', edfEnqueue fuel s t currTime = some s'
  right : ∀ fuel s', edfEnqueue fuel s t currTime = some s' → ∃ start : Nat,
    (start : Int) ≡ prevStart (s.tcb t).sp currTime made [ZMOD (s.tcb t).sp.period] ∧
    ((t ∈ s'.waitList ∧ (s'.tcb t).taskStatus.ready = false ∧ (s'.tcb t).sp.finishTime = start ∧ currTime < start) ∨
      (t ∈ s'.root ∧ (s'.tcb t).taskStatus.ready = true ∧ (s'.tcb t).sp.finishTime = start + (s.tcb t).sp.deadline ∧
        start ≤ currTime ∧ currTime < (s'.tcb t).sp.finishTime ∧ (s'.tcb t).timeSlice = (s.tcb t).sp.runTime))

/-- The block of a task that waits for the period at start. -/
def waitBlock (cb : LosTaskCB) (start : Nat) : LosTaskCB :=
  { cb with
    waitTime := OS_SCHED_MAX_RESPONSE_TIME
    taskStatus := { cb.taskStatus with pendTime := true }
    sp := { cb.sp with finishTime := start, flags := .nextPeriod } }

/-- The block of a task that is ready in the period at start. -/
def readyBlock (cb : LosTaskCB) (start : Nat) : LosTaskCB :=
  { cb with
    timeSlice := cb.sp.runTime
    taskStatus := { cb.taskStatus with
      init := false, pending := false, delay := false, pendTime := false, timeout := false, ready := true }
    sp := { cb.sp with finishTime := add64 start cb.sp.deadline, flags := .unused } }

/-- EDFEnqueue up to the insertion, for a task with no time slice left. -/
private theorem edfPrepare_eq {cb : LosTaskCB} (hts : cb.timeSlice ≤ 0) (fuel currTime : Nat) :
    edfPrepare fuel cb currTime = (periodLoop cb.sp currTime fuel (firstStart cb.sp currTime)).map fun start =>
      if currTime < start then
        (false,{ cb with
          waitTime := OS_SCHED_MAX_RESPONSE_TIME
          taskStatus := { cb.taskStatus with pendTime := true }
          sp := { cb.sp with finishTime := start, flags := .nextPeriod } })
      else
        (true,{ cb with
          timeSlice := cb.sp.runTime
          sp := { cb.sp with finishTime := add64 start cb.sp.deadline, flags := .unused } }) := by
  cases hfl : cb.sp.flags
  all_goals
    simp only [edfPrepare, if_pos hts, firstStart, hfl]
    generalize periodLoop _ _ _ _ = found
    cases found with
    | none => rfl
    | some start =>
      simp only [Option.map_some]
      split_ifs <;> rfl

private theorem edfEnqueue_eq (hr : (s.tcb t).taskStatus.ready = false) (hts : (s.tcb t).timeSlice ≤ 0) (currTime fuel : Nat) :
    edfEnqueue fuel s t currTime =
      (periodLoop (s.tcb t).sp currTime fuel (firstStart (s.tcb t).sp currTime)).map fun start =>
        if currTime < start then { s.setTcb t (waitBlock (s.tcb t) start) with waitList := s.waitList ++ [t] }
        else { s.setTcb t (readyBlock (s.tcb t) start) with
          root := deadlineQueueInsert (Function.update s.tcb t (readyBlock (s.tcb t) start)) s.root t } := by
  rw [edfEnqueue, hr, if_neg (by decide), edfPrepare_eq hts]
  cases periodLoop (s.tcb t).sp currTime fuel (firstStart (s.tcb t).sp currTime) with
  | none => rfl
  | some start =>
    simp only [Option.map_some]
    split_ifs <;> rfl

/-- Parameters that are in order always fit, up to an overflow of the time. -/
private theorem periodFits_of_le (hp : 0 < sched.period) (hp' : sched.period < 2^32) (hr : 0 ≤ sched.runTime)
    (hd : sched.runTime ≤ sched.deadline) (hd' : sched.deadline < 2^32) (hc : currTime + 2^33 ≤ 2^64) :
    PeriodFits sched currTime := by
  set g := sched.period.gcd (2^64)
  set f := firstStart sched currTime
  have hg : 0 < g := Nat.gcd_pos_of_pos_left _ hp
  have hgle : g ≤ sched.period := Nat.gcd_le_left _ hp
  have hrem := Nat.mod_lt (f + (g - (currTime + 1)%g)) hg
  have hx : currTime + 1 + (f + (g - (currTime + 1)%g))%g ≡ f [MOD g] := by
    have hlt := Nat.mod_lt (currTime + 1) hg
    have h1 : currTime + 1 + (f + (g - (currTime + 1)%g))%g ≡ (currTime + 1)%g + (f + (g - (currTime + 1)%g)) [MOD g] :=
      (Nat.mod_modEq _ _).symm.add (Nat.mod_modEq _ _)
    have h2 : (currTime + 1)%g + (f + (g - (currTime + 1)%g)) = f + g := by omega
    rw [h2] at h1
    exact h1.trans (Nat.add_mod_right f g)
  refine ⟨currTime + 1 + (f + (g - (currTime + 1)%g))%g,by omega,hx,?_,?_⟩
  · rw [add64_natCast]
    omega
  · rw [add64_natCast, add64]
    omega

/-- With parameters in order and without an overflow, the change of the deadline alone has to come to whole periods. -/
private theorem onGrid_iff_of_le (hp : 0 < sched.period) (hp' : sched.period < 2^32) (hr : 0 ≤ sched.runTime)
    (hd : sched.runTime ≤ sched.deadline) (hd' : sched.deadline < 2^32) (hc : currTime + 2^33 ≤ 2^64)
    (h0 : 0 ≤ triedStart sched currTime 0) (h1 : triedStart sched currTime 0 + 2^32 ≤ 2^64) :
    OnGrid sched currTime made ↔ (sched.period : Int) ∣ deadlineChange sched made := by
  have hfit : ∀ k, 0 ≤ triedStart sched currTime k → triedStart sched currTime k + 2^32 ≤ 2^64 →
      currTime < triedStart sched currTime k + sched.deadline → Fits sched currTime (tried sched currTime k) := by
    intro k h2 h3 h4
    rw [Fits, add64, add64, tried]
    omega
  -- the start at which currTime is passed fits, and no overflow comes before it
  have hpass : ∃ m, Fits sched currTime (tried sched currTime m) ∧ ∀ k ≤ m, triedStart sched currTime k/2^64 = 0 := by
    by_cases hpos : currTime < triedStart sched currTime 0 + sched.deadline
    · refine ⟨0,hfit 0 h0 h1 hpos,fun k hk => ?_⟩
      rw [Nat.le_zero.mp hk]
      omega
    · obtain ⟨d,hdiff⟩ := Int.eq_ofNat_of_zero_le (show 0 ≤ currTime - (triedStart sched currTime 0 + sched.deadline) by omega)
      have hlt := Nat.lt_mul_div_succ d hp
      have hle := Nat.mul_div_le d sched.period
      have hm : ∀ k ≤ d/sched.period + 1, k*sched.period ≤ d + sched.period := fun k hk =>
        (Nat.mul_le_mul_right _ hk).trans (by rw [Nat.succ_mul, Nat.mul_comm]; omega)
      have hnat : ∀ k, triedStart sched currTime k = triedStart sched currTime 0 + (k*sched.period : Nat) := fun k => by
        rw [triedStart_add]
        push_cast
        rfl
      refine ⟨d/sched.period + 1,hfit _ ?_ ?_ ?_,fun k hk => ?_⟩
      · rw [hnat]
        omega
      · have := hm _ le_rfl
        rw [hnat]
        omega
      · rw [hnat, Nat.mul_comm]
        omega
      · have := hm k hk
        rw [hnat]
        omega
  obtain ⟨m,hm,hzero⟩ := hpass
  constructor
  · intro hg
    have hex : ∃ k, Fits sched currTime (tried sched currTime k) := ⟨m,hm⟩
    have hdvd := hg (Nat.find hex) (Nat.find_spec hex) fun j hj => Nat.find_min hex hj
    rwa [hzero _ (Nat.find_min' hex hm), Int.mul_zero, Int.sub_zero] at hdvd
  · intro hdvd k hk hmin
    have hkm : k ≤ m := not_lt.mp fun hlt => hmin m hlt hm
    rwa [hzero k hkm, Int.mul_zero, Int.sub_zero]

/-- The period of a task without a time slice is found, and is right, exactly where some period fits and the change of the
deadline comes to whole periods. -/
theorem periodOk_iff (hr : (s.tcb t).taskStatus.ready = false) (hts : (s.tcb t).timeSlice ≤ 0) (hc : currTime < 2^64)
    (hf : (s.tcb t).sp.finishTime < 2^64) (hd : (s.tcb t).sp.deadline < 2^64) :
    PeriodOk s t currTime made ↔ PeriodFits (s.tcb t).sp currTime ∧ OnGrid (s.tcb t).sp currTime made := by
  have hz := tried_zero hf hc
  have henq := edfEnqueue_eq hr hts currTime
  rw [← periodLoop_ends_iff hf hc]
  constructor
  · rintro ⟨⟨fuel,s',he⟩,hright⟩
    obtain ⟨start,hmod,hcase⟩ := hright fuel s' he
    rw [henq] at he
    obtain ⟨x,hl,he⟩ := Option.map_eq_some_iff.mp he
    refine ⟨⟨fuel,x,hl⟩,fun k hk hmin => ?_⟩
    rw [← hz] at hl
    obtain ⟨m,hx,hfit,hno⟩ := periodLoop_some hl
    simp only [Nat.zero_add] at hx hno
    obtain rfl : k = m := by
      rcases Nat.lt_trichotomy k m with hlt | he | hgt
      · exact absurd hk (hno k hlt)
      · exact he
      · exact absurd (hx ▸ hfit) (hmin m hgt)
    rw [← tried_modEq_iff, ← hx]
    -- the start that the law speaks of is the one found
    suffices hs : start = x from hs ▸ hmod
    split_ifs at he with hw <;> subst he
    · rcases hcase with ⟨-,-,hfin,-⟩ | ⟨-,hready,-⟩
      · simpa [EdfSched.setTcb, waitBlock] using hfin.symm
      · simp [EdfSched.setTcb, waitBlock, hr] at hready
    · rcases hcase with ⟨-,hready,-⟩ | ⟨-,-,hfin,-⟩
      · simp [EdfSched.setTcb, readyBlock] at hready
      · have hend := hfit.1
        rw [add64_natCast] at hend
        simp only [EdfSched.setTcb, readyBlock, Function.update_self, add64_natCast] at hfin
        omega
  · rintro ⟨⟨fuel,x,hl⟩,hgrid⟩
    refine ⟨⟨fuel,_,by rw [henq, hl]; rfl⟩,fun fuel' s' he => ?_⟩
    rw [henq] at he
    obtain ⟨start,hl',he⟩ := Option.map_eq_some_iff.mp he
    rw [← hz] at hl'
    obtain ⟨m,hm,hfit,hno⟩ := periodLoop_some hl'
    simp only [Nat.zero_add] at hm hno
    have hmod := (tried_modEq_iff _ _ made _).mpr (hgrid m (hm ▸ hfit) hno)
    rw [← hm] at hmod
    refine ⟨start,hmod,?_⟩
    split_ifs at he with hw
    · rw [← he]
      exact .inl ⟨by simp,by simpa [EdfSched.setTcb, waitBlock] using hr,by simp [EdfSched.setTcb, waitBlock],hw⟩
    · -- the period has started, so its end is not past 2^64
      have hfin := hfit.1
      have hend : add64 start (s.tcb t).sp.deadline = start + (s.tcb t).sp.deadline := by
        rw [add64_natCast] at hfin ⊢
        omega
      rw [← he]
      refine .inr ⟨?_,by simp [EdfSched.setTcb, readyBlock],by simp [EdfSched.setTcb, readyBlock, hend],not_lt.mp hw,?_,
        by simp [EdfSched.setTcb, readyBlock]⟩
      · exact (deadlineQueueInsert_perm _ _ _).mem_iff.mpr List.mem_cons_self
      · simpa [EdfSched.setTcb, readyBlock] using hfin

/-- A new task with a run time of 100 us and a deadline and a period of 1 s. -/
def periodicBlock : LosTaskCB := edfTaskSchedParamInit 24000000 newBlock ⟨100,1000000,1000000⟩

/-- The task after its first period, which started at 5000, with a deadline of 1/2 s. -/
def usedBlock : LosTaskCB := { periodicBlock with sp := ⟨.unused,2400,12000000,24000000,12005000⟩ }

/-- Three periods have passed without it. -/
theorem periodOk_later : PeriodOk ⟨fun _ => usedBlock,[],[],[]⟩ 0 100000000 12000000 := by
  refine (periodOk_iff rfl (by decide) (by decide) (by decide) (by decide)).mpr ⟨?_,?_⟩
  · exact periodFits_of_le (by decide) (by decide) (by decide) (by decide) (by decide) (by decide)
  · exact (onGrid_iff_of_le (by decide) (by decide) (by decide) (by decide) (by decide) (by decide) (by decide)
      (by decide)).mpr (by decide)

/-- The caller gives the new task a priority of 10, which is a run time of 10 us, and no deadline and no period. -/
theorem periodOk_fails : ¬ ∀ (clock : Nat) (s : EdfSched) (t currTime made : Nat), Installed clock (s.tcb t) →
    (s.tcb t).taskStatus.ready = false → (s.tcb t).timeSlice ≤ 0 → currTime < 2^64 → (s.tcb t).sp.finishTime < 2^64 →
    (s.tcb t).sp.deadline < 2^64 → PeriodOk s t currTime made := by
  intro hall
  have hset : Installed 24000000 (modifyBlock 24000000 periodicBlock ⟨10,0,0⟩) :=
    .setTask true .deadline .rr ⟨10,0,0⟩ false periodicBlock _ rfl rfl
  obtain ⟨⟨fuel,s',he⟩,-⟩ := hall 24000000 ⟨fun _ => modifyBlock 24000000 periodicBlock ⟨10,0,0⟩,[],[],[]⟩ 0 5000 0 hset rfl
    (by decide) (by decide) (by decide) (by decide)
  rw [edfEnqueue_eq rfl (by decide), ← tried_zero (by decide) (by decide)] at he
  obtain ⟨x,hl,-⟩ := Option.map_eq_some_iff.mp he
  obtain ⟨m,hm,hfit,-⟩ := periodLoop_some hl
  have hp : (modifyBlock 24000000 periodicBlock ⟨10,0,0⟩).sp.period = 0 := by decide
  have hx : x = 5000 := by
    rw [hm, tried_add]
    simp only [hp, Nat.mul_zero]
    decide
  rw [hx] at hfit
  revert hfit
  decide

end LiteOsKernel.Sched.Deadline
