import LiteOsKernel.Posix.Timer
import LiteOsKernel.Swtmr.SwtmrRun
import Mathlib.Tactic.Ring

/-! The response times of one timer, from scan to scan. -/
namespace LiteOsKernel.Posix
open Swtmr

variable {cfg : SwtmrConfig} {swtmr : SwtmrCtrl} {s s' : SwtmrState} {i c startTime currTime start curr p : Nat}

/-- SwtmrStop, of the block alone. -/
def stopCb (swtmr : SwtmrCtrl) : SwtmrCtrl :=
  { swtmr with ucState := .created, uwOverrun := 0, responseTime := OS_SORT_LINK_INVALID_TIME }

/-- SwtmrStart, of the block alone. -/
def startCb (cfg : SwtmrConfig) (startTime currTime : Nat) (swtmr : SwtmrCtrl) : Option SwtmrCtrl :=
  startResponse cfg currTime { swtmr with startTime := startTime }

/-- SwtmrWake of a block that the scan has taken off its list, of the block alone. -/
def wakeCb (cfg : SwtmrConfig) (currTime : Nat) (swtmr : SwtmrCtrl) : Option SwtmrCtrl :=
  let taken := { swtmr with responseTime := OS_SORT_LINK_INVALID_TIME }
  match swtmr.ucMode with
  | .once => some
    { taken with
      ucState := .unused
      uwOwnerPid := OS_INVALID_VALUE
      usTimerID := SwtmrState.nextTimerID swtmr.usTimerID }
  | .noSelfDelete => some { taken with ucState := .created }
  | _ => startResponse cfg currTime { taken with uwOverrun := (swtmr.uwOverrun + 1) % 2 ^ 32, startTime := swtmr.responseTime }

theorem wakeCb_once (h : swtmr.ucMode = .once) : wakeCb cfg currTime swtmr = some
    { swtmr with
      responseTime := OS_SORT_LINK_INVALID_TIME
      ucState := .unused
      uwOwnerPid := OS_INVALID_VALUE
      usTimerID := SwtmrState.nextTimerID swtmr.usTimerID } := by
  cases swtmr
  cases h
  rfl

theorem wakeCb_noSelfDelete (h : swtmr.ucMode = .noSelfDelete) : wakeCb cfg currTime swtmr = some
    { swtmr with responseTime := OS_SORT_LINK_INVALID_TIME, ucState := .created } := by
  cases swtmr
  cases h
  rfl

theorem wakeCb_periodic (h : swtmr.ucMode ≠ .once) (h' : swtmr.ucMode ≠ .noSelfDelete) : wakeCb cfg currTime swtmr =
    startResponse cfg currTime { swtmr with
      responseTime := OS_SORT_LINK_INVALID_TIME
      uwOverrun := (swtmr.uwOverrun + 1) % 2 ^ 32
      startTime := swtmr.responseTime } := by
  rw [wakeCb]
  split
  next hm => exact absurd hm h
  next hm => exact absurd hm h'
  next => rfl

/-- The first time that is a whole number of periods after start, at least one, and not before curr. -/
def nextExpiry (start p curr : Nat) : Nat := start + ((if start + p < curr then (curr - start) / p else 0) + 1) * p

/-- SwtmrToStart comes to the next expiry: no division by zero, no missed periods beyond 32 bits, no time beyond 64 bits. -/
structure StartOk (start p curr : Nat) : Prop where
  divides : p ≠ 0 ∨ curr ≤ start
  missed : start + p < curr → (curr - start) / p < 2 ^ 32
  fits : nextExpiry start p curr < 2 ^ 64

private theorem startResponse_next (swtmr : SwtmrCtrl)
    (hok : StartOk swtmr.startTime (startTicks swtmr * cfg.cyclePerTick) currTime) (hcurr : currTime < 2 ^ 64) :
    ∃ start, startResponse cfg currTime swtmr = some { swtmr with
      ucState := .ticking
      startTime := start
      responseTime := nextExpiry swtmr.startTime (startTicks swtmr * cfg.cyclePerTick) currTime } := by
  have hticks : startTicks { swtmr with ucState := .ticking } = startTicks swtmr := rfl
  obtain ⟨hdiv,hmissed,hfits⟩ := hok
  simp only [startResponse, hticks]
  generalize startTicks swtmr * cfg.cyclePerTick = p at *
  have hfirst : swtmr.startTime + p < 2 ^ 64 := by
    refine lt_of_le_of_lt ?_ hfits
    rw [nextExpiry]
    exact Nat.add_le_add_left (Nat.le_mul_of_pos_left p (Nat.succ_pos _)) _
  rw [nextExpiry] at *
  rw [Nat.mod_eq_of_lt hfirst]
  split_ifs at * with hdue hzero
  · rcases hdiv with hdiv | hdiv
    · exact absurd hzero hdiv
    · omega
  · have hdiff : (currTime + 2 ^ 64 - swtmr.startTime) % 2 ^ 64 = currTime - swtmr.startTime := by
      rw [Nat.sub_add_comm (by omega), Nat.add_mod_right, Nat.mod_eq_of_lt (by omega)]
    have hle : (currTime - swtmr.startTime) / p * p ≤ currTime - swtmr.startTime := Nat.div_mul_le_self ..
    have hsplit : swtmr.startTime + ((currTime - swtmr.startTime) / p + 1) * p =
        swtmr.startTime + (currTime - swtmr.startTime) / p * p + p := by ring
    rw [hsplit] at hfits ⊢
    rw [hdiff, Nat.mod_eq_of_lt (hmissed hdue)]
    generalize (currTime - swtmr.startTime) / p * p = q at *
    rw [Nat.mod_eq_of_lt (by omega : swtmr.startTime + q < 2 ^ 64), Nat.mod_eq_of_lt hfits]
    exact ⟨_,rfl⟩
  · rw [Nat.zero_add, Nat.one_mul]
    exact ⟨_,rfl⟩

private theorem nextExpiry_ge (hp : p ≠ 0 ∨ curr ≤ start) : curr ≤ nextExpiry start p curr := by
  rw [nextExpiry]
  split_ifs with hdue
  · have hpos : 0 < p := by
      rcases hp with hp | hp
      · exact Nat.pos_of_ne_zero hp
      · omega
    have hlt : curr - start < ((curr - start) / p + 1) * p := by
      rw [Nat.mul_comm]
      exact Nat.lt_mul_div_succ _ hpos
    omega
  · rw [Nat.zero_add, Nat.one_mul]
    exact not_lt.mp hdue

/-- The periods that are passed over have passed. -/
private theorem nextExpiry_spec (start p curr : Nat) : ∃ m, nextExpiry start p curr = start + (m + 1) * p ∧ (m = 0 ∨ start + m * p ≤ curr) := by
  refine ⟨_,rfl,?_⟩
  split_ifs with hdue
  · right
    have hle : (curr - start) / p * p ≤ curr - start := Nat.div_mul_le_self ..
    omega
  · exact .inl rfl

/-- A timer, the last time that was read, and the response time that its last start gave. -/
structure PeriodState where
  swtmr : SwtmrCtrl
  time : Nat
  first : Nat

inductive PeriodCall where
  | create (owner interval : Nat) (mode : SwtmrMode) (handler arg : Nat)
  | settime (value : ItimerSpec) (startTime currTime : Nat)
  | start (startTime currTime : Nat)
  | stop
  | scan (scanTime currTime : Nat)

/-- SwtmrStop where the timer ticks. -/
def stopTicking (swtmr : SwtmrCtrl) : SwtmrCtrl := if swtmr.ucState = .ticking then stopCb swtmr else swtmr

/-- The block that timer_settime leaves, before it starts it. -/
def settimeBlock (T : Nat) (swtmr : SwtmrCtrl) (value : ItimerSpec) : SwtmrCtrl :=
  PosixState.settimeCb (stopTicking swtmr) (osTimeSpec2Tick T value.it_value) (osTimeSpec2Tick T value.it_interval)

namespace PeriodState

def startTimer (cfg : SwtmrConfig) (swtmr : SwtmrCtrl) (startTime currTime : Nat) : Option PeriodState :=
  (startCb cfg startTime currTime swtmr).map fun swtmr => ⟨swtmr,currTime,swtmr.responseTime⟩

/-- What a call does with the timer; none where it divides by zero. -/
def periodRun (cfg : SwtmrConfig) (T : Nat) (x : PeriodState) : PeriodCall → Option PeriodState
  | .create owner interval mode handler arg =>
    if x.swtmr.ucState = .unused ∧ interval ≠ 0 ∧ mode ≠ .opp ∧ handler ≠ 0 then
      some { x with swtmr := SwtmrState.createdCb x.swtmr owner interval mode handler arg }
    else some x
  | .settime value startTime currTime =>
    if x.swtmr.ucState = .unused ∨ validTimeSpec value.it_value = false ∨ validTimeSpec value.it_interval = false then some x
    else if value.it_value.tv_sec = 0 ∧ value.it_value.tv_nsec = 0 then some { x with swtmr := settimeBlock T x.swtmr value }
    else startTimer cfg (settimeBlock T x.swtmr value) startTime currTime
  | .start startTime currTime =>
    if x.swtmr.ucState = .unused then some x else startTimer cfg (stopTicking x.swtmr) startTime currTime
  | .stop => some { x with swtmr := stopTicking x.swtmr }
  | .scan scanTime currTime =>
    if x.swtmr.ucState = .ticking ∧ x.swtmr.responseTime ≤ scanTime then
      (wakeCb cfg currTime x.swtmr).map fun swtmr => { x with swtmr := swtmr, time := currTime }
    else some { x with time := currTime }

/-- The timer has a time of its own to come back after it expires. -/
def Periodic (x : PeriodState) : Prop := x.swtmr.ucMode = .period ∨ x.swtmr.ucMode = .opp

instance (x : PeriodState) : Decidable x.Periodic := inferInstanceAs (Decidable (_ ∨ _))

/-- The block and the time that a call hands to SwtmrToStart. -/
def toStart (T : Nat) (x : PeriodState) : PeriodCall → Option (SwtmrCtrl × Nat)
  | .settime value startTime currTime =>
    if x.swtmr.ucState = .unused ∨ validTimeSpec value.it_value = false ∨ validTimeSpec value.it_interval = false ∨
      value.it_value.tv_sec = 0 ∧ value.it_value.tv_nsec = 0 then none
    else some ({ settimeBlock T x.swtmr value with startTime := startTime },currTime)
  | .start startTime currTime =>
    if x.swtmr.ucState = .unused then none else some ({ stopTicking x.swtmr with startTime := startTime },currTime)
  | .scan scanTime currTime =>
    if x.swtmr.ucState = .ticking ∧ x.swtmr.responseTime ≤ scanTime ∧ x.Periodic then
      some ({ x.swtmr with
        responseTime := OS_SORT_LINK_INVALID_TIME
        uwOverrun := (x.swtmr.uwOverrun + 1) % 2 ^ 32
        startTime := x.swtmr.responseTime },currTime)
    else none
  | _ => none

end PeriodState

/-- The times of a call come after those read before, and are those of a UINT64. -/
def PeriodCall.Later (time : Nat) : PeriodCall → Prop
  | .settime _ startTime currTime => time ≤ startTime ∧ startTime ≤ currTime ∧ currTime < 2 ^ 64
  | .start startTime currTime => time ≤ startTime ∧ startTime ≤ currTime ∧ currTime < 2 ^ 64
  | .scan scanTime currTime => time ≤ scanTime ∧ scanTime ≤ currTime ∧ currTime < 2 ^ 64
  | _ => True

/-- What SwtmrToStart is given has a next expiry, and a timer that comes back does so after its interval. -/
structure PeriodOk (cfg : SwtmrConfig) (T : Nat) (x : PeriodState) (call : PeriodCall) : Prop where
  next : ∀ swtmr currTime, x.toStart T call = some (swtmr,currTime) →
    StartOk swtmr.startTime (startTicks swtmr * cfg.cyclePerTick) currTime
  interval : ∀ scanTime currTime swtmr, call = .scan scanTime currTime → x.toStart T call = some (swtmr,currTime) →
    startTicks swtmr = swtmr.uwInterval

def periodSystem (cfg : SwtmrConfig) (T : Nat) : Run.System PeriodState PeriodCall where
  init x := x = ⟨default,0,0⟩
  pre x call := call.Later x.time
  run x call := (x.periodRun cfg T call).getD x

/-- What a call makes of the response time. -/
structure PeriodStep (cfg : SwtmrConfig) (T : Nat) (x : PeriodState) (call : PeriodCall) : Prop where
  divides : (x.periodRun cfg T call).isSome
  current : ∀ x' swtmr currTime, x.periodRun cfg T call = some x' → x.toStart T call = some (swtmr,currTime) →
    currTime ≤ x'.swtmr.responseTime
  expiry : ∀ x' scanTime currTime, call = .scan scanTime currTime → x.periodRun cfg T call = some x' →
    x.swtmr.ucState = .ticking → x.swtmr.responseTime ≤ scanTime → x.Periodic →
      x.swtmr.responseTime < x'.swtmr.responseTime ∧
        ∃ m, x'.swtmr.responseTime = x.swtmr.responseTime + (m + 1) * (x.swtmr.uwInterval * cfg.cyclePerTick) ∧
          (m = 0 ∨ x.swtmr.responseTime + m * (x.swtmr.uwInterval * cfg.cyclePerTick) ≤ currTime)

structure PeriodInv (cfg : SwtmrConfig) (x : PeriodState) : Prop where
  interval : x.swtmr.ucState ≠ .unused → x.Periodic → 0 < x.swtmr.uwInterval
  whole : x.swtmr.ucState = .ticking → ∃ k, x.swtmr.responseTime = x.first + k * (x.swtmr.uwInterval * cfg.cyclePerTick)

variable {x x' : PeriodState} {T : Nat} {call : PeriodCall}

/-- A call that starts the timer comes to the next expiry. -/
private theorem startTimer_next (hok : StartOk startTime (startTicks swtmr * cfg.cyclePerTick) currTime) (hcurr : currTime < 2 ^ 64) :
    ∃ start, PeriodState.startTimer cfg swtmr startTime currTime = some ⟨{ swtmr with
      ucState := .ticking
      startTime := start
      responseTime := nextExpiry startTime (startTicks swtmr * cfg.cyclePerTick) currTime },currTime,
        nextExpiry startTime (startTicks swtmr * cfg.cyclePerTick) currTime⟩ := by
  have hticks : startTicks { swtmr with startTime := startTime } = startTicks swtmr := rfl
  obtain ⟨start,hstart⟩ := startResponse_next { swtmr with startTime := startTime } hok hcurr
  refine ⟨start,?_⟩
  rw [PeriodState.startTimer, startCb, hstart, Option.map_some, hticks]

theorem stopTicking_spec (swtmr : SwtmrCtrl) : (stopTicking swtmr).ucState ≠ .ticking ∧
    ((stopTicking swtmr).ucState = .unused ↔ swtmr.ucState = .unused) ∧ (stopTicking swtmr).ucMode = swtmr.ucMode ∧
      (stopTicking swtmr).uwInterval = swtmr.uwInterval := by
  rw [stopTicking]
  split_ifs with h
  · refine ⟨by simp [stopCb],?_,rfl,rfl⟩
    simp [stopCb, h]
  · exact ⟨h,Iff.rfl,rfl,rfl⟩

/-- A timer that timer_settime makes periodic has an interval. -/
private theorem settimeBlock_interval (T : Nat) (swtmr : SwtmrCtrl) (value : ItimerSpec)
    (h : (settimeBlock T swtmr value).ucMode = .period ∨ (settimeBlock T swtmr value).ucMode = .opp) :
    0 < (settimeBlock T swtmr value).uwInterval := by
  by_contra hz
  have hzero : osTimeSpec2Tick T value.it_interval = 0 := Nat.eq_zero_of_not_pos hz
  simp [settimeBlock, PosixState.settimeCb, hzero] at h

theorem settimeBlock_state (T : Nat) (swtmr : SwtmrCtrl) (value : ItimerSpec) : (settimeBlock T swtmr value).ucState ≠ .ticking := by
  rw [settimeBlock, PosixState.settimeCb]
  exact (stopTicking_spec swtmr).1

/-- Where SwtmrToStart starts a timer, its response time is the first. -/
private theorem startTimer_step (hok : StartOk startTime (startTicks swtmr * cfg.cyclePerTick) currTime) (hcurr : currTime < 2 ^ 64)
    (hint : swtmr.ucMode = .period ∨ swtmr.ucMode = .opp → 0 < swtmr.uwInterval) :
    ∃ x', PeriodState.startTimer cfg swtmr startTime currTime = some x' ∧ currTime ≤ x'.swtmr.responseTime ∧ PeriodInv cfg x' := by
  obtain ⟨start,hstart⟩ := startTimer_next hok hcurr
  exact ⟨_,hstart,nextExpiry_ge hok.divides,fun _ hp => hint hp,fun _ => ⟨0,by simp only; omega⟩⟩

/-- The scan of a timer that is due and comes back. -/
private theorem scan_step {scanTime : Nat} (hs : x.swtmr.ucState = .ticking)
    (hdue : x.swtmr.responseTime ≤ scanTime) (hp : x.Periodic) (hcurr : currTime < 2 ^ 64)
    (hok : PeriodOk cfg T x (.scan scanTime currTime)) :
    ∃ x', x.periodRun cfg T (.scan scanTime currTime) = some x' ∧ x'.first = x.first ∧
      x'.swtmr.responseTime = nextExpiry x.swtmr.responseTime (x.swtmr.uwInterval * cfg.cyclePerTick) currTime ∧
        x'.swtmr.uwInterval = x.swtmr.uwInterval ∧ currTime ≤ x'.swtmr.responseTime := by
  have hstart : x.toStart T (.scan scanTime currTime) = some ({ x.swtmr with
      responseTime := OS_SORT_LINK_INVALID_TIME
      uwOverrun := (x.swtmr.uwOverrun + 1) % 2 ^ 32
      startTime := x.swtmr.responseTime },currTime) := if_pos ⟨hs,hdue,hp⟩
  have hnext := hok.next _ _ hstart
  have hticks := hok.interval _ _ _ rfl hstart
  obtain ⟨start,hstarted⟩ := startResponse_next _ hnext hcurr
  have hwake : wakeCb cfg currTime x.swtmr = _ := (wakeCb_periodic (fun hm => ?_) fun hm => ?_).trans hstarted
  · rw [hticks] at hnext
    have hrun : x.periodRun cfg T (.scan scanTime currTime) = _ :=
      (if_pos ⟨hs,hdue⟩).trans (by rw [hwake, Option.map_some])
    refine ⟨_,hrun,rfl,?_,rfl,nextExpiry_ge (hok.next _ _ hstart).divides⟩
    simp only [hticks]
  · rcases hp with hp | hp
    · exact absurd (hm.symm.trans hp) (by decide)
    · exact absurd (hm.symm.trans hp) (by decide)
  · rcases hp with hp | hp
    · exact absurd (hm.symm.trans hp) (by decide)
    · exact absurd (hm.symm.trans hp) (by decide)

/-- A call that starts nothing. -/
private theorem period_quiet (hrun : x.periodRun cfg T call = some x') (hstart : x.toStart T call = none)
    (hscan : ∀ scanTime currTime, call ≠ .scan scanTime currTime) (hinv : PeriodInv cfg x') :
    PeriodStep cfg T x call ∧ ∀ x', x.periodRun cfg T call = some x' → PeriodInv cfg x' := by
  refine ⟨⟨by rw [hrun]; rfl,fun y b t _ hb => ?_,fun y t t' hc => absurd hc (hscan t t')⟩,fun y hy => ?_⟩
  · rw [hstart] at hb
    exact absurd hb nofun
  · rw [hrun] at hy
    exact Option.some.inj hy ▸ hinv

/-- A call that starts the timer from a block of its own. -/
private theorem period_started (hok : PeriodOk cfg T x call) (hrun : x.periodRun cfg T call = PeriodState.startTimer cfg swtmr startTime currTime)
    (hstart : x.toStart T call = some ({ swtmr with startTime := startTime },currTime)) (hcurr : currTime < 2 ^ 64)
    (hscan : ∀ scanTime currTime, call ≠ .scan scanTime currTime)
    (hint : swtmr.ucMode = .period ∨ swtmr.ucMode = .opp → 0 < swtmr.uwInterval) :
    PeriodStep cfg T x call ∧ ∀ x', x.periodRun cfg T call = some x' → PeriodInv cfg x' := by
  have hnext : StartOk startTime (startTicks swtmr * cfg.cyclePerTick) currTime := hok.next _ _ hstart
  obtain ⟨x',hx',hge,hinv'⟩ := startTimer_step hnext hcurr hint
  rw [← hrun] at hx'
  refine ⟨⟨by rw [hx']; rfl,fun y c t hy hc => ?_,fun y t t' hc => absurd hc (hscan t t')⟩,fun y hy => ?_⟩
  · rw [hx'] at hy
    rw [hstart] at hc
    obtain rfl := Option.some.inj hy
    obtain ⟨-,rfl⟩ := Prod.mk.inj (Option.some.inj hc)
    exact hge
  · rw [hx'] at hy
    exact Option.some.inj hy ▸ hinv'

private theorem settime_step (hinv : PeriodInv cfg x) {value : ItimerSpec} (hcurr : currTime < 2 ^ 64)
    (hok : PeriodOk cfg T x (.settime value startTime currTime)) :
    PeriodStep cfg T x (.settime value startTime currTime) ∧
      ∀ x', x.periodRun cfg T (.settime value startTime currTime) = some x' → PeriodInv cfg x' := by
  by_cases hbad : x.swtmr.ucState = .unused ∨ validTimeSpec value.it_value = false ∨ validTimeSpec value.it_interval = false
  · refine period_quiet (show x.periodRun cfg T _ = some x from if_pos hbad) (if_pos ?_) nofun hinv
    rcases hbad with h | h | h
    · exact .inl h
    · exact .inr (.inl h)
    · exact .inr (.inr (.inl h))
  · have hint := settimeBlock_interval T x.swtmr value
    have hstate := settimeBlock_state T x.swtmr value
    by_cases hzero : value.it_value.tv_sec = 0 ∧ value.it_value.tv_nsec = 0
    · have hrun : x.periodRun cfg T (.settime value startTime currTime) = some { x with swtmr := settimeBlock T x.swtmr value } := by
        rw [PeriodState.periodRun, if_neg hbad, if_pos hzero]
      generalize settimeBlock T x.swtmr value = b at *
      exact period_quiet hrun (if_pos (.inr (.inr (.inr hzero)))) nofun ⟨fun _ hp => hint hp,fun hs => absurd hs hstate⟩
    · have hrun : x.periodRun cfg T (.settime value startTime currTime) =
          PeriodState.startTimer cfg (settimeBlock T x.swtmr value) startTime currTime := by
        rw [PeriodState.periodRun, if_neg hbad, if_neg hzero]
      have hstart : x.toStart T (.settime value startTime currTime) =
          some ({ settimeBlock T x.swtmr value with startTime := startTime },currTime) := by
        rw [PeriodState.toStart, if_neg]
        rintro (h | h | h | h)
        · exact hbad (.inl h)
        · exact hbad (.inr (.inl h))
        · exact hbad (.inr (.inr h))
        · exact hzero h
      generalize settimeBlock T x.swtmr value = b at *
      exact period_started hok hrun hstart hcurr nofun hint

/-- The scan of a timer that is due and comes back moves it to the next expiry of its first start. -/
private theorem scan_periodic (hinv : PeriodInv cfg x) {scanTime : Nat} (hs : x.swtmr.ucState = .ticking)
    (hdue : x.swtmr.responseTime ≤ scanTime) (hp : x.Periodic) (hcurr : currTime < 2 ^ 64)
    (hok : PeriodOk cfg T x (.scan scanTime currTime)) :
    PeriodStep cfg T x (.scan scanTime currTime) ∧
      ∀ x', x.periodRun cfg T (.scan scanTime currTime) = some x' → PeriodInv cfg x' := by
  obtain ⟨x',hrun,hfirst,hresp,hinterval,hge⟩ := scan_step hs hdue hp hcurr hok
  obtain ⟨m,hm,hpassed⟩ := nextExpiry_spec x.swtmr.responseTime (x.swtmr.uwInterval * cfg.cyclePerTick) currTime
  have hpos : 0 < x.swtmr.uwInterval * cfg.cyclePerTick :=
    Nat.mul_pos (hinv.interval (by rw [hs]; decide) hp) cfg.pos
  refine ⟨⟨by rw [hrun]; rfl,fun y b t hy hb => ?_,fun y t t' hc hy _ _ _ => ?_⟩,fun y hy => ?_⟩
  · obtain rfl := Option.some.inj (hrun.symm.trans hy)
    rw [PeriodState.toStart, if_pos ⟨hs,hdue,hp⟩] at hb
    obtain ⟨-,rfl⟩ := Prod.mk.inj (Option.some.inj hb)
    exact hge
  · obtain rfl := Option.some.inj (hrun.symm.trans hy)
    obtain ⟨-,rfl⟩ := PeriodCall.scan.inj hc
    refine ⟨?_,m,hresp.trans hm,hpassed⟩
    rw [hresp, hm, Nat.succ_mul]
    omega
  · obtain rfl := Option.some.inj (hrun.symm.trans hy)
    refine ⟨fun _ _ => ?_,fun _ => ?_⟩
    · rw [hinterval]
      exact Nat.pos_of_mul_pos_right hpos
    · obtain ⟨k,hk⟩ := hinv.whole hs
      rw [hresp, hm, hfirst, hinterval, hk, add_assoc, ← Nat.add_mul]
      exact ⟨_,rfl⟩

/-- The scan of a timer that is due and does not come back leaves it without a response time. -/
private theorem scan_last {scanTime : Nat} (hs : x.swtmr.ucState = .ticking) (hdue : x.swtmr.responseTime ≤ scanTime) (hp : ¬ x.Periodic) :
    PeriodStep cfg T x (.scan scanTime currTime) ∧
      ∀ x', x.periodRun cfg T (.scan scanTime currTime) = some x' → PeriodInv cfg x' := by
  have hstart : x.toStart T (.scan scanTime currTime) = none := if_neg fun hc => hp hc.2.2
  have hwoken (woken : SwtmrCtrl) (hwake : wakeCb cfg currTime x.swtmr = some woken) (hmode : woken.ucMode = x.swtmr.ucMode)
      (hstate : woken.ucState ≠ .ticking) : PeriodStep cfg T x (.scan scanTime currTime) ∧
        ∀ x', x.periodRun cfg T (.scan scanTime currTime) = some x' → PeriodInv cfg x' := by
    have hrun : x.periodRun cfg T (.scan scanTime currTime) = some { x with swtmr := woken, time := currTime } := by
      rw [PeriodState.periodRun, if_pos ⟨hs,hdue⟩, hwake, Option.map_some]
    refine ⟨⟨by rw [hrun]; rfl,fun y b t _ hb => ?_,fun _ _ _ _ _ _ _ hper => absurd hper hp⟩,fun y hy => ?_⟩
    · rw [hstart] at hb
      exact absurd hb nofun
    · obtain rfl := Option.some.inj (hrun.symm.trans hy)
      refine ⟨fun _ hper => absurd ?_ hp,fun ht => absurd ht hstate⟩
      rwa [PeriodState.Periodic, hmode] at hper
  cases hmode : x.swtmr.ucMode with
  | once => exact hwoken _ (wakeCb_once hmode) rfl nofun
  | noSelfDelete => exact hwoken _ (wakeCb_noSelfDelete hmode) rfl nofun
  | period => exact absurd (.inl hmode) hp
  | opp => exact absurd (.inr hmode) hp

/-- The scan of a timer that is not due. -/
private theorem scan_idle (hinv : PeriodInv cfg x) {scanTime : Nat} (hdue : ¬ (x.swtmr.ucState = .ticking ∧ x.swtmr.responseTime ≤ scanTime)) :
    PeriodStep cfg T x (.scan scanTime currTime) ∧
      ∀ x', x.periodRun cfg T (.scan scanTime currTime) = some x' → PeriodInv cfg x' := by
  have hrun : x.periodRun cfg T (.scan scanTime currTime) = some { x with time := currTime } := if_neg hdue
  have hstart : x.toStart T (.scan scanTime currTime) = none := if_neg fun hc => hdue ⟨hc.1,hc.2.1⟩
  refine ⟨⟨by rw [hrun]; rfl,fun y b t _ hb => ?_,fun y t t' hc _ hs hle => ?_⟩,fun y hy => ?_⟩
  · rw [hstart] at hb
    exact absurd hb nofun
  · obtain ⟨rfl,-⟩ := PeriodCall.scan.inj hc
    exact absurd ⟨hs,hle⟩ hdue
  · obtain rfl := Option.some.inj (hrun.symm.trans hy)
    exact ⟨hinv.interval,hinv.whole⟩

/-- Every call that meets the condition keeps the invariant and makes the next response time. -/
private theorem period_step (hinv : PeriodInv cfg x) (hpre : call.Later x.time) (hok : PeriodOk cfg T x call) :
    PeriodStep cfg T x call ∧ ∀ x', x.periodRun cfg T call = some x' → PeriodInv cfg x' := by
  cases call with
  | create owner interval mode handler arg =>
    by_cases hc : x.swtmr.ucState = .unused ∧ interval ≠ 0 ∧ mode ≠ .opp ∧ handler ≠ 0
    · refine period_quiet (if_pos hc) rfl nofun ⟨fun _ _ => Nat.pos_of_ne_zero hc.2.1,fun hs => ?_⟩
      exact absurd hs (by simp [SwtmrState.createdCb])
    · exact period_quiet (if_neg hc) rfl nofun hinv
  | settime value startTime currTime => exact settime_step hinv hpre.2.2 hok
  | start startTime currTime =>
    obtain ⟨-,-,hcurr⟩ := hpre
    obtain ⟨-,-,hmode,hinterval⟩ := stopTicking_spec x.swtmr
    by_cases hs : x.swtmr.ucState = .unused
    · exact period_quiet (if_pos hs) (if_pos hs) nofun hinv
    · refine period_started hok (if_neg hs) (if_neg hs) hcurr nofun fun hp => ?_
      rw [hmode] at hp
      rw [hinterval]
      exact hinv.interval hs hp
  | stop =>
    obtain ⟨hstate,hunused,hmode,hinterval⟩ := stopTicking_spec x.swtmr
    refine period_quiet rfl rfl nofun ⟨fun hs hp => ?_,fun hs => absurd hs hstate⟩
    rw [PeriodState.Periodic, hmode] at hp
    simp only [hinterval]
    exact hinv.interval (fun h => hs (hunused.mpr h)) hp
  | scan scanTime currTime =>
    by_cases hdue : x.swtmr.ucState = .ticking ∧ x.swtmr.responseTime ≤ scanTime
    · by_cases hp : x.Periodic
      · exact scan_periodic hinv hdue.1 hdue.2 hp hpre.2.2 hok
      · exact scan_last hdue.1 hdue.2 hp
    · exact scan_idle hinv hdue

/-- What holds in every state of a run and at every step that meets the condition. -/
structure PeriodLaw (cfg : SwtmrConfig) (T : Nat) (x : PeriodState) : Prop where
  whole : x.swtmr.ucState = .ticking → ∃ k, x.swtmr.responseTime = x.first + k * (x.swtmr.uwInterval * cfg.cyclePerTick)
  step : ∀ call : PeriodCall, call.Later x.time → PeriodOk cfg T x call → PeriodStep cfg T x call

/-- Along every run whose calls meet the condition a timer goes from expiry to expiry by whole intervals. -/
theorem periodLaw_of_reachable (cfg : SwtmrConfig) (T : Nat) (x : PeriodState)
    (h : Run.Reachable (periodSystem cfg T) (PeriodOk cfg T) x) : PeriodLaw cfg T x := by
  have hinv : PeriodInv cfg x := by
    refine h.invariant ?_ fun x call hx hpre hok => ?_
    · rintro x rfl
      exact ⟨fun hs => absurd rfl hs,fun hs => absurd hs nofun⟩
    · obtain ⟨hstep,hnext⟩ := period_step hx hpre hok
      obtain ⟨x',hx'⟩ := Option.isSome_iff_exists.mp hstep.divides
      change PeriodInv cfg ((x.periodRun cfg T call).getD x)
      rw [hx']
      exact hnext x' hx'
  exact ⟨hinv.whole,fun call hpre hok => (period_step hinv hpre hok).1⟩

/-- A timer of two ticks, after it has come once. -/
theorem periodLaw_two_ticks : ∃ x, x.swtmr.responseTime = 400 ∧ PeriodLaw config 1000 x := by
  have hinit : Run.Reachable (periodSystem config 1000) (PeriodOk config 1000) ⟨default,0,0⟩ := .init rfl
  have hcreated := hinit.call (.create 7 2 .period 1 1) trivial ⟨nofun,nofun⟩
  have hstarted := hcreated.call (.start 0 0) ⟨Nat.le_refl _,Nat.le_refl _,by decide⟩ ⟨fun b t hb => ?_,nofun⟩
  · have hscanned := hstarted.call (.scan 200 250) ⟨by decide,by decide,by decide⟩ ⟨fun b t hb => ?_,fun _ _ b _ hb => ?_⟩
    · exact ⟨_,by decide,periodLaw_of_reachable config 1000 _ hscanned⟩
    · obtain ⟨rfl,rfl⟩ := Prod.mk.inj (Option.some.inj hb)
      exact ⟨.inl (by decide),fun _ => by decide,by decide⟩
    · obtain ⟨rfl,rfl⟩ := Prod.mk.inj (Option.some.inj hb)
      rfl
  · obtain ⟨rfl,rfl⟩ := Prod.mk.inj (Option.some.inj hb)
    exact ⟨.inl (by decide),fun _ => by decide,by decide⟩

/-- timer_settime adds one to a first expiry of 0xFFFFFFFF ticks, and the start divides by zero. -/
theorem periodLaw_fails_saturated : ¬ ∀ x, Run.Reachable (periodSystem config 1000) (fun _ _ => True) x →
    ∀ call : PeriodCall, call.Later x.time → PeriodStep config 1000 x call := by
  intro h
  have hinit : Run.Reachable (periodSystem config 1000) (fun _ _ => True) ⟨default,0,0⟩ := .init rfl
  have hcreated := hinit.call (.create 7 1 .once 1 1) trivial trivial
  have hstep := h _ hcreated (.settime ⟨⟨1,0⟩,⟨4294968,0⟩⟩ 0 1) ⟨Nat.le_refl _,by decide,by decide⟩
  exact absurd hstep.divides (by decide +kernel)

end LiteOsKernel.Posix
