import LiteOsKernel.Posix.Cond
import LiteOsKernel.Lib.Run
import Mathlib.Tactic.SplitIfs
import Mathlib.Tactic.Linarith
import Mathlib.Logic.Function.Iterate
import Mathlib.Data.Int.ModEq

/-! Setting, slewing and reading the clocks, after time.c without CPU clocks and time containers. -/
namespace LiteOsKernel.Posix

def EPERM : Int := 1
def ENOTSUP : Int := 95
def OS_SYS_US_PER_SECOND : Int := 1000000
def OS_SYS_NS_PER_US : Int := 1000
def INT_MAX : Int := 2147483647
def INT_MIN : Int := -2147483648
def LOSCFG_BASE_CORE_TICK_PER_SECOND : Int := 1000
def LOSCFG_BASE_CORE_ADJ_PER_SECOND : Int := 500
def SCHED_CLOCK_INTETRVAL_TICKS : Int := LOSCFG_BASE_CORE_TICK_PER_SECOND

structure TimeVal where
  tv_sec : Int
  tv_usec : Int
  deriving DecidableEq

/-- A time64_t, that wraps at 64 bits. -/
def time64 (sec : Int) : Int := Int.bmod sec (2 ^ 64)

/-- g_adjPacement, in nanoseconds. -/
def adjPacement : Int :=
  LOSCFG_BASE_CORE_ADJ_PER_SECOND * SCHED_CLOCK_INTETRVAL_TICKS / LOSCFG_BASE_CORE_TICK_PER_SECOND * OS_SYS_NS_PER_US

/-- g_adjTimeLeft, g_adjDirection, g_accDeltaFromAdj and g_accDeltaFromSet. -/
structure TimeState where
  adjTimeLeft : Int
  adjDirection : Int
  accDeltaFromAdj : TimeSpec
  accDeltaFromSet : TimeSpec
  deriving DecidableEq

def timeInit : TimeState := ⟨0,0,⟨0,0⟩,⟨0,0⟩⟩

/-- Whether the caller has CAP_SET_TIMEOFDAY and CAP_CLOCK_SETTIME. -/
structure TimeCaps where
  setTimeOfDay : Bool
  clockSettime : Bool

inductive ClockId where
  | realtime
  | monotonic
  | processCputime
  | threadCputime
  | monotonicRaw
  | realtimeCoarse
  | monotonicCoarse
  | boottime
  | realtimeAlarm
  | boottimeAlarm
  | tai
  | other
  deriving DecidableEq

def validTimeval (tv : TimeVal) : Bool :=
  !(decide (tv.tv_usec < 0) || decide (OS_SYS_US_PER_SECOND ≤ tv.tv_usec) || decide (tv.tv_sec < 0))

/-- What OsAdjTime does to g_accDeltaFromAdj, for the pacing step or for what is left. -/
def adjDelta (delta : TimeSpec) (adjDirection amount : Int) : TimeSpec :=
  if adjDirection ≠ 0 then
    if OS_SYS_NS_PER_SECOND ≤ delta.tv_nsec + amount then
      ⟨time64 (delta.tv_sec + 1),(delta.tv_nsec + amount) % OS_SYS_NS_PER_SECOND⟩
    else ⟨delta.tv_sec,delta.tv_nsec + amount⟩
  else if delta.tv_nsec - amount < 0 then
    ⟨time64 (delta.tv_sec - 1),delta.tv_nsec - amount + OS_SYS_NS_PER_SECOND⟩
  else ⟨delta.tv_sec,delta.tv_nsec - amount⟩

def osAdjTime (s : TimeState) : TimeState :=
  if s.adjTimeLeft = 0 then s
  else if adjPacement < s.adjTimeLeft then
    { s with
      accDeltaFromAdj := adjDelta s.accDeltaFromAdj s.adjDirection adjPacement
      adjTimeLeft := s.adjTimeLeft - adjPacement }
  else
    { s with
      accDeltaFromAdj := adjDelta s.accDeltaFromAdj s.adjDirection s.adjTimeLeft
      adjTimeLeft := 0 }

/-- The oldDelta of adjtime. -/
def oldDelta (s : TimeState) : TimeVal :=
  let left : TimeVal := ⟨s.adjTimeLeft / OS_SYS_NS_PER_SECOND,s.adjTimeLeft % OS_SYS_NS_PER_SECOND / OS_SYS_NS_PER_US⟩
  if s.adjDirection = 1 then left else ⟨-left.tv_sec,-left.tv_usec⟩

/-- adjtime with 0 or the errno that comes with -1, and oldDelta; delta may be NULL. -/
def adjtime (s : TimeState) (delta : Option TimeVal) : TimeState × Int × TimeVal :=
  match delta with
  | none => (s,0,oldDelta s)
  | some delta =>
    if delta.tv_sec = 0 ∧ delta.tv_usec = 0 then (s,0,oldDelta s)
    else if OS_SYS_US_PER_SECOND < delta.tv_usec ∨ delta.tv_usec < -OS_SYS_US_PER_SECOND then (s,EINVAL,oldDelta s)
    else if delta.tv_sec < INT_MIN.tdiv OS_SYS_US_PER_SECOND + 2 ∨ INT_MAX.tdiv OS_SYS_US_PER_SECOND + 2 < delta.tv_sec then
      (s,EINVAL,oldDelta s)
    else
      let left := delta.tv_sec * OS_SYS_NS_PER_SECOND + delta.tv_usec * OS_SYS_NS_PER_US
      if 0 < left then ({ s with adjTimeLeft := left, adjDirection := 1 },0,oldDelta s)
      else ({ s with adjTimeLeft := -left, adjDirection := 0 },0,oldDelta s)

def osTimeSpecAdd (t1 t2 : TimeSpec) : TimeSpec :=
  let ret : TimeSpec := ⟨time64 (t1.tv_sec + t2.tv_sec),t1.tv_nsec + t2.tv_nsec⟩
  if OS_SYS_NS_PER_SECOND ≤ ret.tv_nsec then ⟨time64 (ret.tv_sec + 1),ret.tv_nsec - OS_SYS_NS_PER_SECOND⟩
  else if ret.tv_nsec < 0 then ⟨time64 (ret.tv_sec - 1),ret.tv_nsec + OS_SYS_NS_PER_SECOND⟩
  else ret

def osTimeSpecSub (t1 t2 : TimeSpec) : TimeSpec :=
  let ret : TimeSpec := ⟨time64 (t1.tv_sec - t2.tv_sec),t1.tv_nsec - t2.tv_nsec⟩
  if ret.tv_nsec < 0 then ⟨time64 (ret.tv_sec - 1),ret.tv_nsec + OS_SYS_NS_PER_SECOND⟩ else ret

/-- OsGetHwTime; nowNsec is LOS_CurrNanosec(). -/
def osGetHwTime (nowNsec : Nat) : TimeSpec :=
  let tv_sec := nowNsec / OS_SYS_NS_PER_SECOND
  ⟨tv_sec,nowNsec - tv_sec * OS_SYS_NS_PER_SECOND⟩

/-- The time of CLOCK_MONOTONIC. -/
def monotonicTime (s : TimeState) (nowNsec : Nat) : TimeSpec := osTimeSpecAdd (osGetHwTime nowNsec) s.accDeltaFromAdj

/-- The time of CLOCK_REALTIME, that OsSetTimeOfDay computes too. -/
def realTime (s : TimeState) (nowNsec : Nat) : TimeSpec := osTimeSpecAdd (monotonicTime s nowNsec) s.accDeltaFromSet

/-- OsSetTimeOfDay with 0 or the errno that comes with -1. -/
def osSetTimeOfDay (s : TimeState) (caps : TimeCaps) (nowNsec : Nat) (tv : TimeVal) : TimeState × Int :=
  if caps.setTimeOfDay = false then (s,EPERM)
  else
    let setTime : TimeSpec := ⟨tv.tv_sec,tv.tv_usec * OS_SYS_NS_PER_US⟩
    let tmp := osTimeSpecSub setTime (realTime s nowNsec)
    ({ s with adjTimeLeft := 0, accDeltaFromSet := osTimeSpecAdd s.accDeltaFromSet tmp },0)

def settimeofday (s : TimeState) (caps : TimeCaps) (nowNsec : Nat) (tv : TimeVal) : TimeState × Int :=
  if validTimeval tv = false then (s,EINVAL) else osSetTimeOfDay s caps nowNsec tv

def clock_settime (s : TimeState) (caps : TimeCaps) (nowNsec : Nat) (clockID : ClockId) (tp : TimeSpec) : TimeState × Int :=
  match clockID with
  | .realtime =>
    if validTimeSpec tp = false then (s,EINVAL)
    else if caps.clockSettime = false then (s,EPERM)
    else settimeofday s caps nowNsec ⟨tp.tv_sec,tp.tv_nsec / OS_SYS_NS_PER_US⟩
  | .monotonic | .other => (s,EINVAL)
  | _ => (s,ENOTSUP)

/-- clock_gettime: the time, or the errno that comes with -1. -/
def clock_gettime (s : TimeState) (nowNsec : Nat) (clockID : ClockId) : Except Int TimeSpec :=
  match clockID with
  | .monotonicRaw => .ok (osGetHwTime nowNsec)
  | .monotonic => .ok (monotonicTime s nowNsec)
  | .realtime => .ok (realTime s nowNsec)
  | .other => .error EINVAL
  | _ => .error ENOTSUP

-- How the nanoseconds of the results add up, where the seconds count modulo 2^64

def TimeSpec.ns (tp : TimeSpec) : Int := tp.tv_sec * OS_SYS_NS_PER_SECOND + tp.tv_nsec

def TimeVal.ns (tv : TimeVal) : Int := tv.tv_sec * OS_SYS_NS_PER_SECOND + tv.tv_usec * OS_SYS_NS_PER_US

def TimeSpec.Normal (tp : TimeSpec) : Prop := 0 ≤ tp.tv_nsec ∧ tp.tv_nsec < OS_SYS_NS_PER_SECOND

/-- The nanoseconds after which a timespec64 comes round again. -/
def nsRound : Int := 2 ^ 64 * OS_SYS_NS_PER_SECOND

/-- A time whose seconds a time64_t can hold. -/
def Fits64 (ns : Int) : Prop := -2 ^ 63 * OS_SYS_NS_PER_SECOND ≤ ns ∧ ns < 2 ^ 63 * OS_SYS_NS_PER_SECOND

variable {s : TimeState} {a b d t : TimeSpec} {tv : TimeVal} {caps : TimeCaps} {now now' n : Nat} {c : ClockId} {x : Int}

private theorem time64_ns {sec nsec : Int} (h : sec * OS_SYS_NS_PER_SECOND + nsec = x) :
    time64 sec * OS_SYS_NS_PER_SECOND + nsec ≡ x [ZMOD nsRound] := by
  subst h
  have h : time64 sec ≡ sec [ZMOD 2 ^ 64] := Int.bmod_emod
  exact (h.mul_right' (c := OS_SYS_NS_PER_SECOND)).add_right nsec

private theorem ns_add (a b : TimeSpec) : (osTimeSpecAdd a b).ns ≡ a.ns + b.ns [ZMOD nsRound] := by
  have hsum : time64 (a.tv_sec + b.tv_sec) * OS_SYS_NS_PER_SECOND + (a.tv_nsec + b.tv_nsec) ≡ a.ns + b.ns [ZMOD nsRound] := by
    refine time64_ns ?_
    simp only [TimeSpec.ns]
    ring
  simp only [osTimeSpecAdd]
  split_ifs
  · refine (time64_ns ?_).trans hsum
    ring
  · refine (time64_ns ?_).trans hsum
    ring
  · exact hsum

private theorem normal_add (ha : a.Normal) (hb : b.Normal) : (osTimeSpecAdd a b).Normal := by
  obtain ⟨ha0,ha1⟩ := ha
  obtain ⟨hb0,hb1⟩ := hb
  simp only [osTimeSpecAdd, TimeSpec.Normal]
  split_ifs with h1 h2
  · simp only
    omega
  · simp only
    omega
  · simp only
    omega

private theorem ns_sub (a b : TimeSpec) : (osTimeSpecSub a b).ns ≡ a.ns - b.ns [ZMOD nsRound] := by
  have hdiff : time64 (a.tv_sec - b.tv_sec) * OS_SYS_NS_PER_SECOND + (a.tv_nsec - b.tv_nsec) ≡ a.ns - b.ns [ZMOD nsRound] := by
    refine time64_ns ?_
    simp only [TimeSpec.ns]
    ring
  simp only [osTimeSpecSub]
  split_ifs
  · refine (time64_ns ?_).trans hdiff
    ring
  · exact hdiff

private theorem normal_sub (ha : a.Normal) (hb : b.Normal) : (osTimeSpecSub a b).Normal := by
  obtain ⟨ha0,ha1⟩ := ha
  obtain ⟨hb0,hb1⟩ := hb
  simp only [osTimeSpecSub, TimeSpec.Normal]
  split_ifs with h1
  · simp only
    omega
  · simp only
    omega

private theorem ns_hwTime (now : Nat) : (osGetHwTime now).ns = now := by
  simp only [osGetHwTime, TimeSpec.ns]
  ring

private theorem normal_hwTime (now : Nat) : (osGetHwTime now).Normal := by
  simp only [osGetHwTime, TimeSpec.Normal, OS_SYS_NS_PER_SECOND]
  omega

/-- The sum of two normal times has the seconds of a time64_t. -/
private theorem fits_add (ha : a.Normal) (hb : b.Normal) : Fits64 (osTimeSpecAdd a b).ns := by
  obtain ⟨hn0,hn1⟩ := normal_add ha hb
  have hsec : -2 ^ 63 ≤ (osTimeSpecAdd a b).tv_sec ∧ (osTimeSpecAdd a b).tv_sec < 2 ^ 63 := by
    simp only [osTimeSpecAdd, time64]
    split_ifs
    · exact ⟨Int.le_bmod (by decide),Int.bmod_lt (by decide)⟩
    · exact ⟨Int.le_bmod (by decide),Int.bmod_lt (by decide)⟩
    · exact ⟨Int.le_bmod (by decide),Int.bmod_lt (by decide)⟩
  simp only [Fits64, TimeSpec.ns, OS_SYS_NS_PER_SECOND] at *
  omega

/-- Two times of a time64_t that agree modulo its range are the same. -/
private theorem eq_of_fits {y : Int} (hx : Fits64 x) (hy : Fits64 y) (h : x ≡ y [ZMOD nsRound]) : x = y := by
  obtain ⟨k,hk⟩ := h.dvd
  simp only [Fits64, nsRound, OS_SYS_NS_PER_SECOND] at *
  omega

private theorem ns_monotonicTime (s : TimeState) (now : Nat) :
    (monotonicTime s now).ns ≡ now + s.accDeltaFromAdj.ns [ZMOD nsRound] := by
  have h := ns_add (osGetHwTime now) s.accDeltaFromAdj
  rwa [ns_hwTime] at h

private theorem ns_realTime (s : TimeState) (now : Nat) :
    (realTime s now).ns ≡ now + s.accDeltaFromAdj.ns + s.accDeltaFromSet.ns [ZMOD nsRound] :=
  (ns_add _ _).trans ((ns_monotonicTime s now).add_right _)

/-- An amount with its direction. -/
def signed (dir amount : Int) : Int := if dir ≠ 0 then amount else -amount

private theorem adjDelta_ns (dir amount : Int) (hd : d.Normal) (h0 : 0 ≤ amount) (h1 : amount < OS_SYS_NS_PER_SECOND) :
    (adjDelta d dir amount).ns ≡ d.ns + signed dir amount [ZMOD nsRound] ∧ (adjDelta d dir amount).Normal := by
  obtain ⟨hd0,hd1⟩ := hd
  have hmod : OS_SYS_NS_PER_SECOND ≤ d.tv_nsec + amount →
      (d.tv_nsec + amount) % OS_SYS_NS_PER_SECOND = d.tv_nsec + amount - OS_SYS_NS_PER_SECOND := by
    intro h
    rw [← Int.sub_emod_right]
    exact Int.emod_eq_of_lt (by omega) (by omega)
  have hplus : d.tv_sec * OS_SYS_NS_PER_SECOND + (d.tv_nsec + amount) = d.ns + amount := by
    rw [TimeSpec.ns, add_assoc]
  have hminus : d.tv_sec * OS_SYS_NS_PER_SECOND + (d.tv_nsec - amount) = d.ns + -amount := by
    rw [TimeSpec.ns]
    ring
  simp only [adjDelta, signed]
  split_ifs with h2 h3 h4
  · rw [hmod h3]
    refine ⟨time64_ns ?_,?_,?_⟩
    · rw [← hplus]
      ring
    · exact sub_nonneg.mpr h3
    · simp only
      omega
  · exact ⟨congrArg (· % nsRound) hplus,add_nonneg hd0 h0,not_le.mp h3⟩
  · refine ⟨time64_ns ?_,?_,?_⟩
    · rw [← hminus]
      ring
    · simp only
      omega
    · simp only
      omega
  · refine ⟨congrArg (· % nsRound) hminus,not_lt.mp h4,?_⟩
    simp only
    omega

-- What holds in every state

structure ClockInv (s : TimeState) : Prop where
  left : 0 ≤ s.adjTimeLeft
  adj : s.accDeltaFromAdj.Normal
  set : s.accDeltaFromSet.Normal

/-- What is done after n calls of OsAdjTime. -/
def slewed (s : TimeState) (n : Nat) : Int := min s.adjTimeLeft (n * adjPacement)

private theorem osAdjTime_inv (h : ClockInv s) : ClockInv (osAdjTime s) ∧
    (osAdjTime s).accDeltaFromAdj.ns ≡ s.accDeltaFromAdj.ns + signed s.adjDirection (slewed s 1) [ZMOD nsRound] := by
  have hp : adjPacement = 500000 := rfl
  have hs : OS_SYS_NS_PER_SECOND = 1000000000 := rfl
  have hleft := h.left
  simp only [osAdjTime, slewed]
  split_ifs with h0 h1
  · refine ⟨h,?_⟩
    rw [h0, min_eq_left (by omega)]
    simp [signed]
  · obtain ⟨hns,hn⟩ := adjDelta_ns s.adjDirection adjPacement h.adj (by omega) (by omega)
    rw [min_eq_right (by omega)]
    exact ⟨⟨by simp only; omega,hn,h.set⟩,by simpa using hns⟩
  · obtain ⟨hns,hn⟩ := adjDelta_ns s.adjDirection s.adjTimeLeft h.adj hleft (by omega)
    rw [min_eq_left (by omega)]
    exact ⟨⟨le_refl 0,hn,h.set⟩,hns⟩

private theorem osAdjTime_left (s : TimeState) : (osAdjTime s).adjTimeLeft = s.adjTimeLeft - slewed s 1 := by
  have hp : adjPacement = 500000 := rfl
  simp only [osAdjTime, slewed]
  split_ifs with h0 h1
  · omega
  · simp only
    omega
  · simp only
    omega

private theorem osAdjTime_frame (s : TimeState) :
    (osAdjTime s).adjDirection = s.adjDirection ∧ (osAdjTime s).accDeltaFromSet = s.accDeltaFromSet := by
  rw [osAdjTime]
  split_ifs
  · exact ⟨rfl,rfl⟩
  · exact ⟨rfl,rfl⟩
  · exact ⟨rfl,rfl⟩

private theorem signed_add (dir x y : Int) : signed dir x + signed dir y = signed dir (x + y) := by
  rw [signed, signed, signed]
  split_ifs
  · rfl
  · ring

/-- A slew never goes back nor too far. -/
private theorem slewed_between (h : ClockInv s) (n : Nat) :
    0 ≤ signed s.adjDirection (slewed s n) ∧ signed s.adjDirection (slewed s n) ≤ signed s.adjDirection s.adjTimeLeft ∨
      signed s.adjDirection s.adjTimeLeft ≤ signed s.adjDirection (slewed s n) ∧ signed s.adjDirection (slewed s n) ≤ 0 := by
  have hp : adjPacement = 500000 := rfl
  have := h.left
  simp only [signed, slewed, hp]
  split_ifs
  · left
    omega
  · right
    omega

private theorem slewed_pace (h : ClockInv s) (n : Nat) :
    |signed s.adjDirection (slewed s (n + 1)) - signed s.adjDirection (slewed s n)| ≤ adjPacement := by
  have hp : adjPacement = 500000 := rfl
  have := h.left
  rw [abs_le]
  simp only [signed, slewed, hp]
  push_cast
  split_ifs
  · omega
  · omega

/-- n calls of OsAdjTime move the delta by what is slewed after n calls. -/
private theorem osAdjTime_iterate (h : ClockInv s) (n : Nat) : ClockInv (osAdjTime^[n] s) ∧
    (osAdjTime^[n] s).accDeltaFromSet = s.accDeltaFromSet ∧
      (osAdjTime^[n] s).accDeltaFromAdj.ns ≡ s.accDeltaFromAdj.ns + signed s.adjDirection (slewed s n) [ZMOD nsRound] := by
  induction n generalizing s with
  | zero =>
    refine ⟨h,rfl,?_⟩
    have hz : slewed s 0 = 0 := by
      have := h.left
      simp [slewed, this]
    rw [hz]
    simp [signed]
  | succ n ih =>
    obtain ⟨hi,hns⟩ := osAdjTime_inv h
    obtain ⟨hi',hset,hns'⟩ := ih hi
    obtain ⟨hdir,hset1⟩ := osAdjTime_frame s
    refine ⟨hi',hset.trans hset1,hns'.trans ?_⟩
    have hsum : slewed s 1 + slewed (osAdjTime s) n = slewed s (n + 1) := by
      have hp : adjPacement = 500000 := rfl
      have := h.left
      simp only [slewed, osAdjTime_left, hp]
      push_cast
      omega
    rw [← hsum, ← signed_add, ← add_assoc, hdir]
    exact hns.add_right _

private theorem osSetTimeOfDay_ns (h : ClockInv s) (hc : caps.setTimeOfDay = true) (h0 : 0 ≤ tv.tv_usec)
    (htv : tv.tv_usec * OS_SYS_NS_PER_US < OS_SYS_NS_PER_SECOND) :
    ClockInv (osSetTimeOfDay s caps now tv).1 ∧ (osSetTimeOfDay s caps now tv).1.adjTimeLeft = 0 ∧
      (osSetTimeOfDay s caps now tv).1.accDeltaFromAdj = s.accDeltaFromAdj ∧
        now + s.accDeltaFromAdj.ns + (osSetTimeOfDay s caps now tv).1.accDeltaFromSet.ns ≡ tv.ns [ZMOD nsRound] := by
  have hset : TimeSpec.Normal ⟨tv.tv_sec,tv.tv_usec * OS_SYS_NS_PER_US⟩ := ⟨by simp only [OS_SYS_NS_PER_US]; omega,htv⟩
  have hreal : (realTime s now).Normal := normal_add (normal_add (normal_hwTime now) h.adj) h.set
  rw [osSetTimeOfDay, if_neg (by simp [hc])]
  refine ⟨⟨le_refl 0,h.adj,normal_add h.set (normal_sub hset hreal)⟩,rfl,rfl,?_⟩
  have h1 := ns_add s.accDeltaFromSet (osTimeSpecSub ⟨tv.tv_sec,tv.tv_usec * OS_SYS_NS_PER_US⟩ (realTime s now))
  have h2 := ns_sub ⟨tv.tv_sec,tv.tv_usec * OS_SYS_NS_PER_US⟩ (realTime s now)
  have h3 := h2.trans ((ns_realTime s now).sub_left _)
  have h4 := (h1.trans (h3.add_left _)).add_left (now + s.accDeltaFromAdj.ns)
  refine h4.trans (congrArg (· % nsRound) ?_)
  simp only [TimeVal.ns, TimeSpec.ns]
  ring

private theorem errno_ne : EINVAL ≠ 0 ∧ EPERM ≠ 0 ∧ ENOTSUP ≠ 0 := by decide

private theorem settimeofday_ns (h : ClockInv s) (hret : (settimeofday s caps now tv).2 = 0) :
    ClockInv (settimeofday s caps now tv).1 ∧ (settimeofday s caps now tv).1.adjTimeLeft = 0 ∧
      (settimeofday s caps now tv).1.accDeltaFromAdj = s.accDeltaFromAdj ∧
        now + s.accDeltaFromAdj.ns + (settimeofday s caps now tv).1.accDeltaFromSet.ns ≡ tv.ns [ZMOD nsRound] := by
  rw [settimeofday] at hret ⊢
  split_ifs at hret ⊢ with hv
  · exact absurd hret errno_ne.1
  · have hc : caps.setTimeOfDay = true := by
      rw [osSetTimeOfDay] at hret
      split_ifs at hret with hc
      · exact absurd hret errno_ne.2.1
      · simpa using hc
    simp only [validTimeval, Bool.not_eq_false, Bool.not_eq_true', Bool.or_eq_false_iff, decide_eq_false_iff_not, not_lt,
      not_le] at hv
    refine osSetTimeOfDay_ns h hc hv.1.1 ?_
    have := hv.1.2
    simp only [OS_SYS_US_PER_SECOND, OS_SYS_NS_PER_US, OS_SYS_NS_PER_SECOND] at *
    omega

private theorem clock_settime_eq (hret : (clock_settime s caps now c t).2 = 0) : validTimeSpec t = true ∧
    clock_settime s caps now c t = settimeofday s caps now ⟨t.tv_sec,t.tv_nsec / OS_SYS_NS_PER_US⟩ := by
  cases c with
  | realtime =>
    simp only [clock_settime] at hret ⊢
    split_ifs at hret ⊢ with hv hcap
    · exact absurd hret errno_ne.1
    · exact absurd hret errno_ne.2.1
    · exact ⟨by simpa using hv,rfl⟩
  | monotonic => exact absurd hret errno_ne.1
  | other => exact absurd hret errno_ne.1
  | _ => exact absurd hret errno_ne.2.2

private theorem settimeofday_inv (h : ClockInv s) : ClockInv (settimeofday s caps now tv).1 := by
  by_cases hret : (settimeofday s caps now tv).2 = 0
  · exact (settimeofday_ns h hret).1
  · rw [settimeofday, osSetTimeOfDay] at hret ⊢
    split_ifs at hret ⊢
    · exact h
    · exact h
    · exact absurd rfl hret

private theorem clock_settime_inv (h : ClockInv s) : ClockInv (clock_settime s caps now c t).1 := by
  cases c with
  | realtime =>
    rw [clock_settime]
    split_ifs
    · exact h
    · exact h
    · exact settimeofday_inv h
  | _ => exact h

private theorem adjtime_inv (h : ClockInv s) (delta : Option TimeVal) : ClockInv (adjtime s delta).1 := by
  cases delta with
  | none => exact h
  | some delta =>
    simp only [adjtime]
    split_ifs with h0 h1 h2 h3
    · exact h
    · exact h
    · exact h
    · exact ⟨h3.le,h.adj,h.set⟩
    · exact ⟨by simp only; omega,h.adj,h.set⟩

/-- An accepted delta is what there is to slew. -/
private theorem adjtime_left (hret : (adjtime s (some tv)).2.1 = 0) (h0 : ¬(tv.tv_sec = 0 ∧ tv.tv_usec = 0)) :
    (adjtime s (some tv)).1.accDeltaFromAdj = s.accDeltaFromAdj ∧ (adjtime s (some tv)).1.accDeltaFromSet = s.accDeltaFromSet ∧
      (adjtime s (some tv)).1.adjTimeLeft = |tv.ns| ∧
        signed (adjtime s (some tv)).1.adjDirection (adjtime s (some tv)).1.adjTimeLeft = tv.ns := by
  simp only [adjtime, if_neg h0] at hret ⊢
  split_ifs at hret ⊢ with h1 h2 h3
  · exact absurd hret errno_ne.1
  · exact absurd hret errno_ne.1
  · exact ⟨rfl,rfl,(abs_of_pos h3).symm,if_pos one_ne_zero⟩
  · exact ⟨rfl,rfl,(abs_of_nonpos (not_lt.mp h3)).symm,(if_neg (not_not.mpr rfl)).trans (neg_neg _)⟩

/-- The two clocks follow the delta of the slew. -/
private theorem clock_gettime_slew {s' : TimeState} (hc : c = .realtime ∨ c = .monotonic) (h : ClockInv s')
    (hset : s'.accDeltaFromSet = s.accDeltaFromSet) (hadj : s'.accDeltaFromAdj.ns ≡ s.accDeltaFromAdj.ns + x [ZMOD nsRound])
    (ha : clock_gettime s now c = .ok a) :
    ∃ b, clock_gettime s' now c = .ok b ∧ Fits64 b.ns ∧ b.ns ≡ a.ns + x [ZMOD nsRound] := by
  have hmono : (monotonicTime s' now).ns ≡ (monotonicTime s now).ns + x [ZMOD nsRound] := by
    refine (ns_monotonicTime s' now).trans ((hadj.add_left now).trans ?_)
    rw [← add_assoc]
    exact ((ns_monotonicTime s now).add_right x).symm
  rcases hc with rfl | rfl
  · obtain rfl := Except.ok.inj ha
    refine ⟨_,rfl,fits_add (normal_add (normal_hwTime now) h.adj) h.set,(ns_add _ _).trans ?_⟩
    rw [hset]
    refine (hmono.add_right _).trans ?_
    rw [add_right_comm]
    exact ((ns_add _ _).add_right x).symm
  · obtain rfl := Except.ok.inj ha
    exact ⟨_,rfl,fits_add (normal_hwTime now) h.adj,hmono⟩

-- Every sequence of calls

inductive ClockCall where
  | settimeofday (caps : TimeCaps) (nowNsec : Nat) (tv : TimeVal)
  | clock_settime (caps : TimeCaps) (nowNsec : Nat) (clockID : ClockId) (tp : TimeSpec)
  | adjtime (delta : Option TimeVal)
  | osAdjTime

def ClockCall.timeRun (s : TimeState) : ClockCall → TimeState
  | .settimeofday caps nowNsec tv => (Posix.settimeofday s caps nowNsec tv).1
  | .clock_settime caps nowNsec clockID tp => (Posix.clock_settime s caps nowNsec clockID tp).1
  | .adjtime delta => (Posix.adjtime s delta).1
  | .osAdjTime => Posix.osAdjTime s

def clockSystem : Run.System TimeState ClockCall where
  init s := s = timeInit
  pre _ _ := True
  run s c := c.timeRun s

/-- From s on, CLOCK_REALTIME reads ns plus the hardware time since now, and CLOCK_MONOTONIC reads what it did before. -/
structure SetLaw (before s : TimeState) (now : Nat) (ns : Int) : Prop where
  reads : ∀ n now', now ≤ now' → Fits64 (ns + (now' - now)) →
    ∃ tp, clock_gettime (osAdjTime^[n] s) now' .realtime = .ok tp ∧ tp.Normal ∧ tp.ns = ns + (now' - now)
  monotonic : ∀ now', clock_gettime s now' .monotonic = clock_gettime before now' .monotonic

/-- Call by call of OsAdjTime from s on, a clock goes by the pacing step at most and by delta in all. -/
def SlewLaw (before s : TimeState) (delta : Int) : Prop :=
  ∀ c now tp, c = .realtime ∨ c = .monotonic → clock_gettime before now c = .ok tp → Fits64 (tp.ns + delta) →
    ∃ read : Nat → TimeSpec, (∀ n, clock_gettime (osAdjTime^[n] s) now c = .ok (read n)) ∧
      (∀ n, |(read (n + 1)).ns - (read n).ns| ≤ adjPacement) ∧ ∀ n : Nat, |delta| ≤ n * adjPacement → (read n).ns = tp.ns + delta

structure ClockLaw (s : TimeState) : Prop where
  adj : s.accDeltaFromAdj.Normal
  set : s.accDeltaFromSet.Normal
  settimeofday : ∀ caps now tv, (settimeofday s caps now tv).2 = 0 → SetLaw s (settimeofday s caps now tv).1 now tv.ns
  clock_settime : ∀ caps now c tp, (clock_settime s caps now c tp).2 = 0 →
    SetLaw s (clock_settime s caps now c tp).1 now (tp.ns - tp.tv_nsec % OS_SYS_NS_PER_US)
  adjtime : ∀ delta, (adjtime s (some delta)).2.1 = 0 → ¬(delta.tv_sec = 0 ∧ delta.tv_usec = 0) →
    SlewLaw s (adjtime s (some delta)).1 delta.ns

private theorem clock_inv (h : Run.Reachable clockSystem (fun _ _ => True) s) : ClockInv s := by
  refine h.invariant ?_ fun s c hs _ _ => ?_
  · rintro s rfl
    exact ⟨le_refl 0,⟨le_refl 0,by decide⟩,⟨le_refl 0,by decide⟩⟩
  · cases c with
    | settimeofday caps now tv => exact settimeofday_inv hs
    | clock_settime caps now c tp => exact clock_settime_inv hs
    | adjtime delta => exact adjtime_inv hs delta
    | osAdjTime => exact (osAdjTime_inv hs).1

private theorem setLaw (h : ClockInv s) (hret : (settimeofday s caps now tv).2 = 0) :
    SetLaw s (settimeofday s caps now tv).1 now tv.ns := by
  obtain ⟨hi,hleft,hadj,hns⟩ := settimeofday_ns h hret
  have hstop (n : Nat) : osAdjTime^[n] (settimeofday s caps now tv).1 = (settimeofday s caps now tv).1 :=
    Function.iterate_fixed (by rw [osAdjTime, if_pos hleft]) n
  refine ⟨fun n now' hle hfit => ?_,fun now' => ?_⟩
  · rw [hstop n]
    refine ⟨_,rfl,normal_add (normal_add (normal_hwTime now') hi.adj) hi.set,?_⟩
    refine eq_of_fits (fits_add (normal_add (normal_hwTime now') hi.adj) hi.set) hfit ((ns_realTime _ now').trans ?_)
    rw [hadj]
    refine Int.ModEq.trans (congrArg (· % nsRound) ?_) (hns.add_right (now' - now : Int))
    ring
  · rw [clock_gettime, clock_gettime, monotonicTime, monotonicTime, hadj]

private theorem slewLaw (h : ClockInv s) (hret : (adjtime s (some tv)).2.1 = 0) (h0 : ¬(tv.tv_sec = 0 ∧ tv.tv_usec = 0)) :
    SlewLaw s (adjtime s (some tv)).1 tv.ns := by
  obtain ⟨hadj,hset,hleft,hsigned⟩ := adjtime_left hret h0
  have hi := adjtime_inv h (some tv)
  intro c now tp hc htp hfit
  have hfit0 : Fits64 tp.ns := by
    obtain ⟨b,hb,hfits,-⟩ := clock_gettime_slew (x := 0) hc h rfl (by rw [add_zero]) htp
    rwa [Except.ok.inj (htp.symm.trans hb)]
  have hread (n : Nat) : ∃ b, clock_gettime (osAdjTime^[n] (adjtime s (some tv)).1) now c = .ok b ∧
      b.ns = tp.ns + signed (adjtime s (some tv)).1.adjDirection (slewed (adjtime s (some tv)).1 n) := by
    obtain ⟨hn,hsetn,hadjn⟩ := osAdjTime_iterate hi n
    rw [hadj] at hadjn
    obtain ⟨b,hb,hfits,hns⟩ := clock_gettime_slew hc hn (hsetn.trans hset) hadjn htp
    refine ⟨b,hb,eq_of_fits hfits ?_ hns⟩
    have hbetween := slewed_between hi n
    rw [hsigned] at hbetween
    obtain ⟨hlo,hhi⟩ := hfit
    obtain ⟨hlo0,hhi0⟩ := hfit0
    exact ⟨by omega,by omega⟩
  choose read hread hns using hread
  refine ⟨read,hread,fun n => ?_,fun n hn => ?_⟩
  · rw [hns, hns, add_sub_add_left_eq_sub]
    exact slewed_pace hi n
  · rw [hns, slewed, hleft, min_eq_left hn, ← hleft, hsigned]

/-- clock_settime hands whole microseconds on. -/
private theorem setLaw_clock_settime (h : ClockInv s) (hret : (clock_settime s caps now c t).2 = 0) :
    SetLaw s (clock_settime s caps now c t).1 now (t.ns - t.tv_nsec % OS_SYS_NS_PER_US) := by
  obtain ⟨-,heq⟩ := clock_settime_eq hret
  rw [heq] at hret ⊢
  have hns : TimeVal.ns ⟨t.tv_sec,t.tv_nsec / OS_SYS_NS_PER_US⟩ = t.ns - t.tv_nsec % OS_SYS_NS_PER_US := by
    have hdiv := Int.mul_ediv_add_emod t.tv_nsec OS_SYS_NS_PER_US
    simp only [TimeVal.ns, TimeSpec.ns]
    linarith
  rw [← hns]
  exact setLaw h hret

theorem clockLaw_of_reachable (s : TimeState) (h : Run.Reachable clockSystem (fun _ _ => True) s) : ClockLaw s where
  adj := (clock_inv h).adj
  set := (clock_inv h).set
  settimeofday _ _ _ hret := setLaw (clock_inv h) hret
  clock_settime _ _ _ _ hret := setLaw_clock_settime (clock_inv h) hret
  adjtime _ hret h0 := slewLaw (clock_inv h) hret h0

/-- A slew of a second is under way when the clock is set to 5 s, and a slew back of half a second has begun since. -/
theorem clockLaw_slew_back : ∃ s, Run.Reachable clockSystem (fun _ _ => True) s ∧ s.accDeltaFromAdj = ⟨0,0⟩ ∧
    s.accDeltaFromSet = ⟨4,999000000⟩ ∧ s.adjTimeLeft = 499500000 ∧ ClockLaw s := by
  have h0 : Run.Reachable clockSystem (fun _ _ => True) timeInit := .init rfl
  have h1 := h0.call (.adjtime (some ⟨1,0⟩)) trivial trivial
  have h2 := h1.call .osAdjTime trivial trivial
  have h3 := h2.call (.settimeofday ⟨true,true⟩ 500000 ⟨5,0⟩) trivial trivial
  have h4 := h3.call (.adjtime (some ⟨0,-500000⟩)) trivial trivial
  have h5 := h4.call .osAdjTime trivial trivial
  exact ⟨_,h5,by decide,by decide,by decide,clockLaw_of_reachable _ h5⟩

/-- A clock set to 5 s and 1 ns reads 5 s, and a delta of nothing lets the slew that is under way go on. -/
theorem clockLaw_fails_zero :
    (¬ ∀ s, Run.Reachable clockSystem (fun _ _ => True) s → ∀ caps now tp, (clock_settime s caps now .realtime tp).2 = 0 →
      SetLaw s (clock_settime s caps now .realtime tp).1 now tp.ns) ∧
    ¬ ∀ s, Run.Reachable clockSystem (fun _ _ => True) s → ∀ delta, (adjtime s (some delta)).2.1 = 0 →
      SlewLaw s (adjtime s (some delta)).1 delta.ns := by
  have h0 : Run.Reachable clockSystem (fun _ _ => True) timeInit := .init rfl
  refine ⟨fun hall => ?_,fun hall => ?_⟩
  · have hlaw := hall _ h0 ⟨true,true⟩ 0 ⟨5,1⟩ (by decide)
    obtain ⟨tp,htp,-,hns⟩ := hlaw.reads 0 0 (le_refl 0) ⟨by decide,by decide⟩
    obtain rfl := Except.ok.inj htp
    exact absurd hns (by decide)
  · have h1 := h0.call (.adjtime (some ⟨1,0⟩)) trivial trivial
    obtain ⟨read,hread,-,htotal⟩ := hall _ h1 ⟨0,0⟩ (by decide) .realtime 0 ⟨0,0⟩ (.inl rfl) (by decide) ⟨by decide,by decide⟩
    have hns := htotal 1 (by decide)
    rw [← Except.ok.inj (hread 1)] at hns
    exact absurd hns (by decide)

end LiteOsKernel.Posix
