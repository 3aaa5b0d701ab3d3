import LiteOsKernel.Posix.Ticks
import LiteOsKernel.Posix.TimerPeriod
import LiteOsKernel.Swtmr.SwtmrRun

/-! The arguments of POSIX timers, from malloc to free, against the handler items that carry them. -/
namespace LiteOsKernel.Posix
open Swtmr

variable {cfg : SwtmrConfig} {s s' s'' : SwtmrState} {swtmr : SwtmrCtrl} {i c startTime currTime swtmrID : Nat}

namespace PosixState

/-- The item waits on a handler queue, or its handler runs. -/
def Pending (x : PosixState) (item : SwtmrHandlerItem) : Prop :=
  ∃ c, item ∈ (x.swtmr.runqueue c).swtmrHandlerQueue ∨ x.running c = some item

/-- The argument is allocated. -/
def Held (x : PosixState) (arg : Nat) : Prop := x.freed arg = false ∧ arg ≤ x.args

end PosixState

/-- Block i is a timer with an argument of OsTimerCreate. -/
def Owns (s : SwtmrState) (i : Nat) : Prop := (s.cb i).ucState ≠ .unused ∧ (s.cb i).pfnHandler = SwtmrProc

/-- Each timer has an argument of its own, and neither these nor those of pending items are free. -/
structure ArgInv (x : PosixState) : Prop where
  owned : ∀ i, Owns x.swtmr i → x.Held (x.swtmr.cb i).uwArg
  apart : ∀ i j, Owns x.swtmr i → Owns x.swtmr j → (x.swtmr.cb i).uwArg = (x.swtmr.cb j).uwArg → i = j
  pending : ∀ item, x.Pending item → item.handler = SwtmrProc → x.Held item.arg
  fresh : ∀ arg, x.args < arg → x.freed arg = false

variable {x : PosixState} {arg : Nat}

private theorem owns_of_kept (h : Kept i s s') {j : Nat} (hj : Owns s' j) : Owns s j ∧ (s'.cb j).uwArg = (s.cb j).uwArg := by
  by_cases hji : j = i
  · subst hji
    exact ⟨⟨(h.live hj.1).1,h.handler.symm.trans hj.2⟩,h.arg⟩
  · rw [Owns, h.other j hji] at hj
    exact ⟨hj,by rw [h.other j hji]⟩

namespace ArgInv

theorem kept (h : ArgInv x) (hk : Kept i x.swtmr s) : ArgInv { x with swtmr := s } := by
  refine ⟨fun j hj => ?_,fun j k hj hk' he => ?_,fun item hp => h.pending item ?_,h.fresh⟩
  · obtain ⟨howns,harg⟩ := owns_of_kept hk hj
    exact harg ▸ h.owned j howns
  · obtain ⟨howns,harg⟩ := owns_of_kept hk hj
    obtain ⟨howns',harg'⟩ := owns_of_kept hk hk'
    exact h.apart j k howns howns' (harg.symm.trans (he.trans harg'))
  · obtain ⟨c,hc⟩ := hp
    refine ⟨c,?_⟩
    rwa [hk.queue c] at hc

/-- An argument may be freed when no timer and no pending item has it. -/
theorem free (h : ArgInv x) (ha : arg ≤ x.args) (hown : ∀ i, Owns x.swtmr i → (x.swtmr.cb i).uwArg ≠ arg)
    (hpend : ∀ item, x.Pending item → item.handler = SwtmrProc → item.arg ≠ arg) : ArgInv (x.free arg) := by
  have hheld {a : Nat} (hne : a ≠ arg) (hx : x.Held a) : (x.free arg).Held a := by
    refine ⟨?_,hx.2⟩
    rw [PosixState.free]
    exact (Function.update_of_ne hne _ _).trans hx.1
  refine ⟨fun i hi => hheld (hown i hi) (h.owned i hi),h.apart,fun item hp hi => hheld (hpend item hp hi) (h.pending item hp hi),
    fun a hlt => ?_⟩
  rw [PosixState.free]
  exact (Function.update_of_ne (by have : x.args < a := hlt; omega) _ _).trans (h.fresh a hlt)

/-- malloc gives an argument that no timer and no pending item has. -/
theorem malloc (h : ArgInv x) : ArgInv { x with args := x.args + 1 } :=
  ⟨fun i hi => ⟨(h.owned i hi).1,Nat.le_succ_of_le (h.owned i hi).2⟩,h.apart,
    fun item hp hi => ⟨(h.pending item hp hi).1,Nat.le_succ_of_le (h.pending item hp hi).2⟩,
    fun a hlt => h.fresh a (Nat.lt_of_succ_lt hlt)⟩

/-- A new timer in block i, whose argument, if it is one of OsTimerCreate, no other timer has. -/
theorem created (h : ArgInv x) (hother : ∀ j, j ≠ i → s.cb j = x.swtmr.cb j) (hqueue : s.runqueue = x.swtmr.runqueue)
    (hnew : (s.cb i).pfnHandler = SwtmrProc →
      x.Held (s.cb i).uwArg ∧ ∀ j, Owns x.swtmr j → (x.swtmr.cb j).uwArg ≠ (s.cb i).uwArg) :
    ArgInv { x with swtmr := s } := by
  have howns {j : Nat} (hji : j ≠ i) (hj : Owns s j) : Owns x.swtmr j := by rwa [Owns, hother j hji] at hj
  refine ⟨fun j hj => ?_,fun j k hj hk he => ?_,fun item hp => h.pending item ?_,h.fresh⟩
  · by_cases hji : j = i
    · subst hji
      exact (hnew hj.2).1
    · change x.Held (s.cb j).uwArg
      rw [hother j hji]
      exact h.owned j (howns hji hj)
  · simp only at hj hk he
    by_cases hji : j = i
    · by_cases hki : k = i
      · exact hji.trans hki.symm
      · rw [hji, hother k hki] at he
        exact absurd he.symm ((hnew (hji ▸ hj.2)).2 k (howns hki hk))
    · by_cases hki : k = i
      · rw [hki, hother j hji] at he
        exact absurd he ((hnew (hki ▸ hk.2)).2 j (howns hji hj))
      · rw [hother j hji, hother k hki] at he
        exact h.apart j k (howns hji hj) (howns hki hk) he
  · obtain ⟨c,hc⟩ := hp
    refine ⟨c,?_⟩
    rwa [← hqueue]

/-- An item with the argument of a timer goes on a queue. -/
theorem push (h : ArgInv x) (c : Nat) (hi : (x.swtmr.cb i).ucState ≠ .unused) :
    ArgInv { x with swtmr := x.swtmr.pushHandler c ⟨(x.swtmr.cb i).pfnHandler,(x.swtmr.cb i).uwArg⟩ } := by
  refine ⟨h.owned,h.apart,fun item hp hproc => ?_,h.fresh⟩
  obtain ⟨d,hd | hd⟩ := hp
  · by_cases hdc : d = c
    · subst hdc
      simp only [SwtmrState.pushHandler, Function.update_self, List.mem_append, List.mem_singleton] at hd
      rcases hd with hd | rfl
      · exact h.pending item ⟨d,.inl hd⟩ hproc
      · exact h.owned i ⟨hi,hproc⟩
    · simp only [SwtmrState.pushHandler, Function.update_of_ne hdc] at hd
      exact h.pending item ⟨d,.inl hd⟩ hproc
  · exact h.pending item ⟨d,.inr hd⟩ hproc

end ArgInv

/-- The calls, and what the timer task of a CPU does between them. -/
inductive PosixCall where
  | timerCreate (owner : Nat) (realtime : Bool) (evp : Option Ksigevent) (timerID enough : Bool)
  | timerDelete (caller : Nat) (intActive : Bool) (timerID : Nat)
  | timerSettime (startTime currTime caller : Nat) (intActive : Bool) (timerID flags : Nat) (value : Option ItimerSpec)
  | swtmrCreate (owner interval : Nat) (mode : SwtmrMode) (handler : Nat) (swtmrID : Bool) (arg : Nat)
  | swtmrStart (startTime currTime swtmrID : Nat)
  | swtmrStop (swtmrID : Nat)
  | swtmrDelete (swtmrID : Nat)
  | scanTake (cpuid scanTime : Nat)
  | scanWake (cpuid currTime : Nat)
  | taskTake (cpuid : Nat)
  | taskDone (cpuid : Nat)

namespace PosixCall

/-- What a call does; none where it divides by zero. -/
def posixRun (cfg : SwtmrConfig) (T : Nat) (x : PosixState) : PosixCall → Option PosixState
  | timerCreate owner realtime evp timerID enough => some (x.osTimerCreate owner realtime evp timerID enough).1
  | timerDelete caller intActive timerID => some (x.timer_delete caller intActive timerID).1
  | timerSettime startTime currTime caller intActive timerID flags value =>
    (PosixState.timer_settime x.swtmr cfg T startTime currTime caller intActive timerID flags value).map
      fun (swtmr,_) => { x with swtmr := swtmr }
  | swtmrCreate owner interval mode handler swtmrID arg =>
    some { x with swtmr := (x.swtmr.losSwtmrCreate owner interval mode handler swtmrID arg).1 }
  | swtmrStart startTime currTime swtmrID =>
    (x.swtmr.losSwtmrStart cfg startTime currTime swtmrID).map fun (swtmr,_) => { x with swtmr := swtmr }
  | swtmrStop swtmrID => some { x with swtmr := (x.swtmr.losSwtmrStop swtmrID).1 }
  | swtmrDelete swtmrID => some { x with swtmr := (x.swtmr.losSwtmrDelete swtmrID).1 }
  | scanTake cpuid scanTime => some { x with swtmr := x.swtmr.scanTake cpuid scanTime }
  | scanWake cpuid currTime => (x.swtmr.scanWake cfg cpuid currTime).map fun swtmr => { x with swtmr := swtmr }
  | taskTake cpuid => some (x.taskTake cpuid)
  | taskDone cpuid => some (x.taskDone cpuid)

/-- An interval is a UINT32, SwtmrProc is private to time.c, and SwtmrTask of a CPU does one thing after the other. -/
def Pre (x : PosixState) : PosixCall → Prop
  | swtmrCreate _ interval _ handler _ _ => interval < 2 ^ 32 ∧ handler ≠ SwtmrProc
  | scanTake cpuid _ => x.swtmr.waking cpuid = none ∧ x.running cpuid = none
  | taskTake cpuid => x.swtmr.waking cpuid = none ∧ x.running cpuid = none
  | _ => True

/-- timer_settime with these arguments gets to LOS_SwtmrStart. -/
def Arms (x : PosixState) (caller : Nat) (intActive : Bool) (timerID flags : Nat) (value : Option ItimerSpec) : Prop :=
  flags = 0 ∧ intActive = false ∧ PosixState.validTimerID x.swtmr caller (timerID % 2 ^ 16) = true ∧ ∃ v, value = some v ∧
    validTimeSpec v.it_value = true ∧ validTimeSpec v.it_interval = true ∧ ¬ (v.it_value.tv_sec = 0 ∧ v.it_value.tv_nsec = 0)

/-- timer_delete frees no argument that a pending item carries, no call starts or deletes a timer between its leaving the
time list and SwtmrWake, and the times that are read fit. -/
def Ok (cfg : SwtmrConfig) (x : PosixState) : PosixCall → Prop
  | timerDelete caller intActive timerID => intActive = false → PosixState.validTimerID x.swtmr caller (timerID % 2 ^ 16) = true →
    x.swtmr.Names (timerID % 2 ^ 16) → timerID % 2 ^ 16 % LOSCFG_BASE_CORE_SWTMR_LIMIT ∉ x.swtmr.taken ∧
      ((x.swtmr.cb (timerID % 2 ^ 16 % LOSCFG_BASE_CORE_SWTMR_LIMIT)).pfnHandler = SwtmrProc →
        ¬ x.Pending ⟨SwtmrProc,(x.swtmr.cb (timerID % 2 ^ 16 % LOSCFG_BASE_CORE_SWTMR_LIMIT)).uwArg⟩)
  | timerSettime startTime currTime caller intActive timerID flags value => ClockFits cfg startTime ∧ ClockFits cfg currTime ∧
    (Arms x caller intActive timerID flags value → timerID % 2 ^ 16 % LOSCFG_BASE_CORE_SWTMR_LIMIT ∉ x.swtmr.taken)
  | swtmrStart startTime currTime swtmrID => ClockFits cfg startTime ∧ ClockFits cfg currTime ∧ x.swtmr.Exclusive swtmrID
  | swtmrDelete swtmrID => x.swtmr.Exclusive swtmrID
  | scanTake _ scanTime => ClockFits cfg scanTime
  | scanWake _ currTime => ClockFits cfg currTime
  | _ => True

end PosixCall

def posixSystem (cfg : SwtmrConfig) (T : Nat) : Run.System PosixState PosixCall where
  init x := x = posixInit
  pre x c := c.Pre x
  run x c := (c.posixRun cfg T x).getD x

structure PosixInv (cfg : SwtmrConfig) (x : PosixState) : Prop where
  arg : ArgInv x
  wake : WakeInv cfg x.swtmr

private theorem losSwtmrCreate_error {owner interval handler arg : Nat} {mode : SwtmrMode} {id : Bool} {e : SwtmrErrno}
    (h : s.losSwtmrCreate owner interval mode handler id arg = (s',.error e)) : s = s' := by
  rw [SwtmrState.losSwtmrCreate] at h
  split_ifs at h
  · exact (Prod.mk.inj h).1
  · exact (Prod.mk.inj h).1
  · exact (Prod.mk.inj h).1
  · exact (Prod.mk.inj h).1
  · split at h
    next => exact (Prod.mk.inj h).1
    next => cases (Prod.mk.inj h).2

namespace PosixInv

/-- LOS_SwtmrDelete where it may delete. -/
theorem swtmrDelete (h : PosixInv cfg x) (hh : x.swtmr.Exclusive swtmrID) :
    PosixInv cfg { x with swtmr := (x.swtmr.losSwtmrDelete swtmrID).1 } :=
  ⟨h.arg.kept (Kept.losSwtmrDelete x.swtmr swtmrID),h.wake.delete hh⟩

theorem swtmrStart (h : PosixInv cfg x) (hh : x.swtmr.Exclusive swtmrID) (hstart : ClockFits cfg startTime)
    (hcurr : ClockFits cfg currTime) {r : Except SwtmrErrno Unit}
    (hs : x.swtmr.losSwtmrStart cfg startTime currTime swtmrID = some (s,r)) : PosixInv cfg { x with swtmr := s } :=
  ⟨h.arg.kept (Kept.losSwtmrStart hs),h.wake.start hh hstart hcurr hs⟩

theorem swtmrStop (h : PosixInv cfg x) (swtmrID : Nat) : PosixInv cfg { x with swtmr := (x.swtmr.losSwtmrStop swtmrID).1 } :=
  ⟨h.arg.kept (Kept.losSwtmrStop x.swtmr swtmrID),h.wake.stop swtmrID⟩

private theorem timerDelete {caller timerID : Nat} {intActive : Bool} (h : PosixInv cfg x)
    (hok : PosixCall.Ok cfg x (.timerDelete caller intActive timerID)) : PosixInv cfg (x.timer_delete caller intActive timerID).1 := by
  rw [PosixState.timer_delete]
  rw [PosixCall.Ok] at hok
  generalize timerID % 2 ^ 16 = swtmrID at *
  split_ifs with hbad
  · exact h
  · rw [not_or, Bool.not_eq_true, Bool.not_eq_false] at hbad
    by_cases hn : x.swtmr.Names swtmrID
    · obtain ⟨hh,hpend⟩ := hok hbad.1 hbad.2 hn
      obtain ⟨deleted,hdel,hunused⟩ := SwtmrState.losSwtmrDelete_ok h.wake.swtmr hn
      have hinv : PosixInv cfg { x with swtmr := deleted } := by
        have hdelete := h.swtmrDelete fun _ => hh
        rwa [hdel] at hdelete
      have hk : Kept (swtmrID % LOSCFG_BASE_CORE_SWTMR_LIMIT) x.swtmr deleted := by
        have hkept := Kept.losSwtmrDelete x.swtmr swtmrID
        rwa [hdel] at hkept
      have hlive : (x.swtmr.cb (swtmrID % LOSCFG_BASE_CORE_SWTMR_LIMIT)).ucState ≠ .unused := hn.2
      simp only [hdel]
      generalize swtmrID % LOSCFG_BASE_CORE_SWTMR_LIMIT = i at *
      split_ifs with hfree
      · have howns : Owns x.swtmr i := ⟨hlive,hfree.1⟩
        have hnot {j : Nat} (hj : Owns deleted j) : j ≠ i := by
          rintro rfl
          exact hj.1 hunused
        refine ⟨hinv.arg.free (h.arg.owned i howns).2 (fun j hj he => ?_) fun item hp hi he => ?_,hinv.wake⟩
        · obtain ⟨hx,harg⟩ := owns_of_kept hk hj
          exact hnot hj (h.arg.apart j i hx howns (harg.symm.trans he))
        · refine hpend hfree.1 ?_
          obtain ⟨c,hc⟩ := hp
          rw [← hi, ← he]
          exact ⟨c,by rwa [← hk.queue c]⟩
      · exact hinv
    · obtain ⟨hsame,e,he⟩ := SwtmrState.losSwtmrDelete_fail hn
      rw [show x.swtmr.losSwtmrDelete swtmrID = (x.swtmr,.error e) from Prod.ext hsame he]
      exact h

/-- What timer_settime writes into a block leaves it where it is. -/
theorem settimeCb (h : PosixInv cfg x) (i expiry : Nat) {interval : Nat} (hlt : interval < 2 ^ 32) :
    PosixInv cfg { x with swtmr := x.swtmr.setCb i (PosixState.settimeCb (x.swtmr.cb i) expiry interval) } := by
  have hk : Kept i x.swtmr (x.swtmr.setCb i (PosixState.settimeCb (x.swtmr.cb i) expiry interval)) := Kept.setCb rfl rfl fun hs => ⟨hs,rfl⟩
  refine ⟨h.arg.kept hk,h.wake.waking rfl (h.wake.swtmr.setCb_keep rfl rfl rfl (fun _ => ⟨hlt,Nat.mod_lt _ (by decide)⟩)
    fun ⟨h1,h2⟩ => ⟨h1,h2⟩) fun j hj => ?_⟩
  by_cases hji : j = i
  · rw [hji, SwtmrState.setCb_same]
    exact h.wake.live i (hji ▸ hj)
  · rw [SwtmrState.setCb_other hji]
    exact h.wake.live j hj

private theorem timerSettime {caller timerID flags T : Nat} {intActive : Bool} {value : Option ItimerSpec} {r : Int} (h : PosixInv cfg x)
    (hok : PosixCall.Ok cfg x (.timerSettime startTime currTime caller intActive timerID flags value))
    (hs : PosixState.timer_settime x.swtmr cfg T startTime currTime caller intActive timerID flags value = some (s,r)) :
    PosixInv cfg { x with swtmr := s } := by
  obtain ⟨hstart,hcurr,harms⟩ := hok
  simp only [PosixCall.Arms] at harms
  simp only [PosixState.timer_settime] at hs
  generalize timerID % 2 ^ 16 = swtmrID at *
  have hlt := Nat.mod_lt swtmrID (by decide : LOSCFG_BASE_CORE_SWTMR_LIMIT > 0)
  have hid := (h.wake.swtmr.ids _ hlt).mod
  generalize swtmrID % LOSCFG_BASE_CORE_SWTMR_LIMIT = i at *
  have hsame {s' : SwtmrState} {r' : Int} (hs : some (s',r') = some (s,r)) (hinv : PosixInv cfg { x with swtmr := s' }) :
      PosixInv cfg { x with swtmr := s } := by
    obtain ⟨rfl,-⟩ := Prod.mk.inj (Option.some.inj hs)
    exact hinv
  cases value with
  | none =>
    by_cases hflags : flags ≠ 0
    · rw [if_pos hflags] at hs
      exact hsame hs h
    · rw [if_neg hflags] at hs
      exact hsame hs h
  | some value =>
    have hstop := h.swtmrStop (x.swtmr.cb i).usTimerID
    have hkept := Kept.losSwtmrStop x.swtmr (x.swtmr.cb i).usTimerID
    have hinterval : osTimeSpec2Tick T value.it_interval < 2 ^ 32 := by
      rw [osTimeSpec2Tick_eq]
      exact lt_of_le_of_lt (min_le_right ..) (by decide)
    dsimp only at hs
    split_ifs at hs with hflags hbad hspec hret hzero
    · exact hsame hs h
    · exact hsame hs h
    · exact hsame hs h
    · exact hsame hs hstop
    · exact hsame hs (hstop.settimeCb i _ hinterval)
    · obtain ⟨⟨s',r'⟩,hs',he⟩ := Option.map_eq_some_iff.mp hs
      rw [not_or, Bool.not_eq_true, Bool.not_eq_false] at hbad
      rw [not_or, Bool.not_eq_false, Bool.not_eq_false] at hspec
      have hhole := harms ⟨not_not.mp hflags,hbad.1,hbad.2,value,rfl,hspec.1,hspec.2,hzero⟩
      have hset := hstop.settimeCb i (osTimeSpec2Tick T value.it_value) hinterval
      refine hsame (congrArg some he) (hset.swtmrStart (fun _ => ?_) hstart hcurr hs')
      rw [(hset.wake.swtmr.ids i hlt).mod]
      change i ∉ (x.swtmr.losSwtmrStop (x.swtmr.cb i).usTimerID).1.taken
      rw [SwtmrState.taken, hkept.waking]
      exact hhole

/-- LOS_SwtmrCreate of a timer that shares no argument of OsTimerCreate. -/
theorem create {owner interval handler arg r : Nat} {mode : SwtmrMode} {id : Bool} (h : PosixInv cfg x) (hlt : interval < 2 ^ 32)
    (hnew : handler = SwtmrProc → x.Held arg ∧ ∀ j, Owns x.swtmr j → (x.swtmr.cb j).uwArg ≠ arg)
    (hs : x.swtmr.losSwtmrCreate owner interval mode handler id arg = (s,.ok r)) : PosixInv cfg { x with swtmr := s } := by
  have hinv := h.wake.create owner hlt mode handler id arg
  rw [hs] at hinv
  rw [SwtmrState.losSwtmrCreate] at hs
  split_ifs at hs
  · cases (Prod.mk.inj hs).2
  · cases (Prod.mk.inj hs).2
  · cases (Prod.mk.inj hs).2
  · cases (Prod.mk.inj hs).2
  split at hs
  next => cases (Prod.mk.inj hs).2
  next i l hfree =>
    obtain ⟨rfl,-⟩ := Prod.mk.inj hs
    refine ⟨h.arg.created (fun j hj => SwtmrState.setCb_other hj) rfl ?_,hinv⟩
    rw [SwtmrState.setCb_same]
    exact hnew

private theorem swtmrCreate {owner interval handler arg : Nat} {mode : SwtmrMode} {id : Bool} (h : PosixInv cfg x) (hlt : interval < 2 ^ 32)
    (hp : handler ≠ SwtmrProc) : PosixInv cfg { x with swtmr := (x.swtmr.losSwtmrCreate owner interval mode handler id arg).1 } := by
  cases hs : x.swtmr.losSwtmrCreate owner interval mode handler id arg with
  | mk s r =>
    cases r with
    | ok r => exact h.create hlt (fun he => absurd he hp) hs
    | error e =>
      obtain rfl := losSwtmrCreate_error hs
      exact h

private theorem timerCreate {owner : Nat} {realtime : Bool} {evp : Option Ksigevent} {timerID enough : Bool} (h : PosixInv cfg x) :
    PosixInv cfg (x.osTimerCreate owner realtime evp timerID enough).1 := by
  simp only [PosixState.osTimerCreate]
  split_ifs
  · exact h
  · exact h
  · exact h
  · have hmalloc : PosixInv cfg { x with args := x.args + 1 } := ⟨h.arg.malloc,h.wake⟩
    have hne {a : Nat} (ha : x.Held a) : a ≠ x.args + 1 := (Nat.lt_succ_of_le ha.2).ne
    split
    next s e hs =>
      exact ⟨hmalloc.arg.free (Nat.le_refl _) (fun i hi => hne (h.arg.owned i hi)) fun item hp hi => hne (h.arg.pending item hp hi),
        h.wake⟩
    next s r hs =>
      refine hmalloc.create (by decide) (fun _ => ⟨⟨?_,Nat.le_refl _⟩,fun j hj => hne (h.arg.owned j hj)⟩) hs
      exact h.arg.fresh _ (Nat.lt_succ_self _)

theorem scanTake {cpuid scanTime : Nat} (h : PosixInv cfg x) (hpre : x.swtmr.waking cpuid = none) (hok : ClockFits cfg scanTime) :
    PosixInv cfg { x with swtmr := x.swtmr.scanTake cpuid scanTime } := by
  refine ⟨?_,h.wake.scanTake hpre hok⟩
  rw [SwtmrState.scanTake]
  split
  next => exact h.arg
  next i rest hlink =>
  split_ifs
  · have harg := h.arg.kept (Kept.osDeleteNodeSortLink i x.swtmr cpuid)
    exact ⟨harg.owned,harg.apart,harg.pending,harg.fresh⟩
  · exact h.arg

theorem scanWake {cpuid : Nat} (h : PosixInv cfg x) (hok : ClockFits cfg currTime)
    (hs : x.swtmr.scanWake cfg cpuid currTime = some s) : PosixInv cfg { x with swtmr := s } := by
  refine ⟨?_,h.wake.scanWake hok hs⟩
  rw [SwtmrState.scanWake] at hs
  split at hs
  next =>
    obtain rfl := Option.some.inj hs
    exact h.arg
  next i startTime hwaking =>
    obtain ⟨woken,hwoken,rfl⟩ := Option.map_eq_some_iff.mp hs
    obtain ⟨hlive,-⟩ := h.wake.live i ⟨cpuid,startTime,hwaking⟩
    have harg := (h.arg.push cpuid hlive).kept (Kept.swtmrWake hlive hwoken)
    exact ⟨harg.owned,harg.apart,harg.pending,harg.fresh⟩

theorem taskTake {cpuid : Nat} (h : PosixInv cfg x) : PosixInv cfg (x.taskTake cpuid) := by
  rw [PosixState.taskTake]
  split
  next => exact h
  next item rest hqueue =>
  refine ⟨⟨h.arg.owned,h.arg.apart,fun other hp => h.arg.pending other ?_,h.arg.fresh⟩,
    h.wake.waking rfl (runqueue_inv h.wake.swtmr fun d => ?_) h.wake.live⟩
  swap
  · by_cases hd : d = cpuid
    · subst hd
      rw [Function.update_self]
    · rw [Function.update_of_ne hd]
  obtain ⟨d,hd | hd⟩ := hp
  · refine ⟨d,.inl ?_⟩
    by_cases hdc : d = cpuid
    · subst hdc
      simp only [Function.update_self] at hd
      exact hqueue ▸ List.mem_cons_of_mem item hd
    · simpa only [Function.update_of_ne hdc] using hd
  · obtain ⟨-,he⟩ | ⟨-,hd⟩ := SwtmrState.update_eq hd
    · obtain rfl := Option.some.inj he
      exact ⟨cpuid,.inl (hqueue ▸ List.mem_cons_self)⟩
    · exact ⟨d,.inr hd⟩

theorem taskDone {cpuid : Nat} (h : PosixInv cfg x) : PosixInv cfg (x.taskDone cpuid) := by
  rw [PosixState.taskDone]
  refine ⟨⟨h.arg.owned,h.arg.apart,fun item hp => h.arg.pending item ?_,h.arg.fresh⟩,h.wake⟩
  obtain ⟨d,hd | hd⟩ := hp
  · exact ⟨d,.inl hd⟩
  · by_cases hdc : d = cpuid
    · subst hdc
      exact absurd (hd.symm.trans (Function.update_self ..)) nofun
    · exact ⟨d,.inr ((Function.update_of_ne hdc ..).symm.trans hd)⟩

end PosixInv

private theorem posixRun_inv {T : Nat} {call : PosixCall} (h : PosixInv cfg x) (hpre : call.Pre x) (hok : call.Ok cfg x) {x' : PosixState}
    (hs : call.posixRun cfg T x = some x') : PosixInv cfg x' := by
  cases call with
  | timerCreate => exact Option.some.inj hs ▸ h.timerCreate
  | timerDelete => exact Option.some.inj hs ▸ h.timerDelete hok
  | timerSettime =>
    obtain ⟨⟨s,r⟩,hs',rfl⟩ := Option.map_eq_some_iff.mp hs
    exact h.timerSettime hok hs'
  | swtmrCreate => exact Option.some.inj hs ▸ h.swtmrCreate hpre.1 hpre.2
  | swtmrStart =>
    obtain ⟨⟨s,r⟩,hs',rfl⟩ := Option.map_eq_some_iff.mp hs
    exact h.swtmrStart hok.2.2 hok.1 hok.2.1 hs'
  | swtmrStop => exact Option.some.inj hs ▸ h.swtmrStop _
  | swtmrDelete => exact Option.some.inj hs ▸ h.swtmrDelete hok
  | scanTake => exact Option.some.inj hs ▸ h.scanTake hpre.1 hok
  | scanWake =>
    obtain ⟨s,hs',rfl⟩ := Option.map_eq_some_iff.mp hs
    exact h.scanWake hok hs'
  | taskTake => exact Option.some.inj hs ▸ h.taskTake
  | taskDone => exact Option.some.inj hs ▸ h.taskDone

private theorem posixInit_inv : PosixInv cfg posixInit := by
  have hunused (i : Nat) : (posixInit.swtmr.cb i).ucState = .unused := rfl
  refine ⟨⟨fun i hi => absurd (hunused i) hi.1,fun i j hi => absurd (hunused i) hi.1,?_,fun _ _ => rfl⟩,init_wake⟩
  rintro item ⟨c,hc | hc⟩
  · exact absurd hc List.not_mem_nil
  · exact absurd hc nofun

/-- No handler that runs has an argument that is free. -/
def DeleteLaw (x : PosixState) : Prop := ∀ c item, x.running c = some item → item.handler = SwtmrProc → x.freed item.arg = false

/-- Along every run whose calls meet the condition. -/
theorem deleteLaw_of_reachable (cfg : SwtmrConfig) (T : Nat) (x : PosixState)
    (h : Run.Reachable (posixSystem cfg T) (fun x call => call.Ok cfg x) x) : DeleteLaw x := by
  have hinv : PosixInv cfg x := by
    refine h.invariant ?_ fun x call hx hpre hok => ?_
    · rintro x rfl
      exact posixInit_inv
    · change PosixInv cfg ((call.posixRun cfg T x).getD x)
      cases hs : call.posixRun cfg T x with
      | none => exact hx
      | some x' => exact posixRun_inv hx hpre hok hs
  exact fun c item hc hi => (hinv.arg.pending item ⟨c,.inr hc⟩ hi).1

/-- A state in which no handler runs. -/
def quiet (s : SwtmrState) (args : Nat) (freed : Nat → Bool) : PosixState := ⟨s,fun _ => none,args,freed⟩

variable {args : Nat} {freed : Nat → Bool} {l : List Nat}

/-- Process 7 makes a timer in a block that is first on the free list. -/
private theorem reachable_timer (h : Run.Reachable (posixSystem config 1000) (fun x call => call.Ok config x) (quiet s args freed))
    (hfree : s.freeList = i :: l) : Run.Reachable (posixSystem config 1000) (fun x call => call.Ok config x)
      (quiet ({ s with freeList := l }.setCb i (SwtmrState.createdCb (s.cb i) 7 1 .once SwtmrProc (args + 1))) (args + 1) freed) := by
  have hcall := h.call (.timerCreate 7 true none true true) trivial trivial
  have hrun : (posixSystem config 1000).run (quiet s args freed) (.timerCreate 7 true none true true) =
      quiet ({ s with freeList := l }.setCb i (SwtmrState.createdCb (s.cb i) 7 1 .once SwtmrProc (args + 1))) (args + 1) freed := by
    simp [posixSystem, PosixCall.posixRun, PosixState.osTimerCreate, SwtmrState.losSwtmrCreate, hfree, SIGALRM, SIGRTMAX, SwtmrProc, quiet]
  rwa [hrun] at hcall

/-- Process 7 sets its timer to one nanosecond at the time t. -/
private theorem reachable_set {t : Nat} (h : Run.Reachable (posixSystem config 1000) (fun x call => call.Ok config x) (quiet s args freed))
    (hw : s.waking = fun _ => none) (hi : i < LOSCFG_BASE_CORE_SWTMR_LIMIT) (ht : t < 2 ^ 32) {arg : Nat}
    (hcb : s.cb i = ⟨OS_SORT_LINK_INVALID_TIME,0,.created,.once,i,0,1,1,arg,SwtmrProc,7,0⟩) (hrq : s.runqueue 0 = ⟨⟨[],0⟩,[]⟩) :
    ∃ s', Run.Reachable (posixSystem config 1000) (fun x call => call.Ok config x) (quiet s' args freed) ∧
      s'.waking = s.waking ∧ s'.freeList = s.freeList ∧ s'.runqueue 0 = ⟨⟨[i],1⟩,[]⟩ ∧
        (∀ c, c ≠ 0 → s'.runqueue c = s.runqueue c) ∧
          s'.cb i = ⟨t + 200,0,.ticking,.noSelfDelete,i,0,0,2,arg,SwtmrProc,7,t⟩ ∧ ∀ j, j ≠ i → s'.cb j = s.cb j := by
  have hmod : i % 65536 = i := Nat.mod_eq_of_lt (hi.trans (by decide))
  have hmod' := Nat.mod_eq_of_lt hi
  have hmax : ¬ OS_SWTMR_MAX_TIMERID ≤ i := not_le.mpr (hi.trans_le limit_le_max)
  have htime : (t + 200) % 18446744073709551616 = t + 200 := Nat.mod_eq_of_lt (by omega)
  have hnow : ¬ t + 200 < t := by omega
  have hclock : ClockFits config t := by
    have hconfig : config.cyclePerTick = 100 := rfl
    have hinvalid : OS_SORT_LINK_INVALID_TIME = 2 ^ 64 - 1 := rfl
    rw [ClockFits, hconfig, hinvalid]
    omega
  have hcall := h.call (.timerSettime t t 7 false i 0 (some ⟨⟨0,0⟩,⟨0,1⟩⟩)) trivial
    ⟨hclock,hclock,fun _ hi => hi.elim fun c hc => hc.elim fun u hc => absurd ((congrFun hw c).symm.trans hc) (Option.some_ne_none _).symm⟩
  have hexpiry : osTimeSpec2Tick 1000 ⟨0,1⟩ = 1 := by decide
  have hinterval : osTimeSpec2Tick 1000 ⟨0,0⟩ = 0 := by decide
  obtain ⟨s',hs',hw',hfree',hrq',hidle',hcb',hother'⟩ : ∃ s', PosixState.timer_settime s config 1000 t t 7 false i 0 (some ⟨⟨0,0⟩,⟨0,1⟩⟩) =
      some (s',0) ∧ s'.waking = s.waking ∧ s'.freeList = s.freeList ∧ s'.runqueue 0 = ⟨⟨[i],1⟩,[]⟩ ∧
        (∀ c, c ≠ 0 → s'.runqueue c = s.runqueue c) ∧
          s'.cb i = ⟨t + 200,0,.ticking,.noSelfDelete,i,0,0,2,arg,SwtmrProc,7,t⟩ ∧ ∀ j, j ≠ i → s'.cb j = s.cb j := by
    simp [PosixState.timer_settime, PosixState.validTimerID, hmod, hmod', hcb, not_le.mp hmax, hmax, validTimeSpec,
      SwtmrState.losSwtmrStop, hexpiry, hinterval, PosixState.settimeCb, SwtmrState.losSwtmrStart, SwtmrState.swtmrStart,
      SwtmrState.findIdleSwtmrRunqueue, config, SwtmrState.swtmrToStart, startResponse, startTicks, OS_SYS_NS_PER_SECOND, htime]
    simp +contextual [SwtmrState.addSwtmr2TimeList, hrq, Sched.Timeout.addNode2SortLink, SwtmrState.setSortLink, SwtmrState.setCb]
  have hrun : (posixSystem config 1000).run (quiet s args freed) (.timerSettime t t 7 false i 0 (some ⟨⟨0,0⟩,⟨0,1⟩⟩)) =
      quiet s' args freed := by
    change (Option.map _ (PosixState.timer_settime s config 1000 t t 7 false i 0 (some ⟨⟨0,0⟩,⟨0,1⟩⟩))).getD _ = _
    rw [hs']
    rfl
  rw [hrun] at hcall
  exact ⟨s',hcall,hw',hfree',hrq',hidle',hcb',hother'⟩

/-- A timer of process 7 in block i has expired: SwtmrTask has its item on the queue, and no scan is at a timer. -/
structure Expired (s : SwtmrState) (i arg t : Nat) : Prop where
  waking : s.waking = fun _ => none
  queue : s.runqueue 0 = ⟨⟨[],0⟩,[⟨SwtmrProc,arg⟩]⟩
  idle : ∀ c, c ≠ 0 → s.runqueue c = ⟨⟨[],0⟩,[]⟩
  cb : s.cb i = ⟨OS_SORT_LINK_INVALID_TIME,0,.created,.noSelfDelete,i,0,0,2,arg,SwtmrProc,7,t⟩

/-- Process 7 makes a timer in the next block and sets it at the time t, and the scan of CPU 0 takes it and wakes it. -/
private theorem reachable_expired {t : Nat} (h : Run.Reachable (posixSystem config 1000) (fun x call => call.Ok config x) (quiet s args freed))
    (hw : s.waking = fun _ => none) (hfree : s.freeList = i :: l) (hi : i < LOSCFG_BASE_CORE_SWTMR_LIMIT) (ht : t < 2 ^ 32)
    (hcb : s.cb i = swtmrBaseInit.cb i) (hrq : ∀ c, s.runqueue c = ⟨⟨[],0⟩,[]⟩) :
    ∃ s', Run.Reachable (posixSystem config 1000) (fun x call => call.Ok config x) (quiet s' (args + 1) freed) ∧
      Expired s' i (args + 1) t ∧ s'.freeList = l ∧ ∀ j, j ≠ i → s'.cb j = s.cb j := by
  have hmade := reachable_timer h hfree
  generalize hx : SwtmrState.setCb _ i _ = x at hmade
  have hcbx : x.cb i = ⟨OS_SORT_LINK_INVALID_TIME,0,.created,.once,i,0,1,1,args + 1,SwtmrProc,7,0⟩ := by
    rw [← hx, SwtmrState.setCb_same, hcb]
    rfl
  have hother (j : Nat) (hj : j ≠ i) : x.cb j = s.cb j := hx ▸ SwtmrState.setCb_other hj
  have hfreex : x.freeList = l := hx ▸ rfl
  have hwx : x.waking = fun _ => none := hx ▸ hw
  have hrqx (c : Nat) : x.runqueue c = ⟨⟨[],0⟩,[]⟩ := hx ▸ hrq c
  obtain ⟨y,hset,hwy,hfreey,hrqy,hidley,hcby,hothery⟩ := reachable_set hmade hwx hi ht hcbx (hrqx 0)
  rw [hwx] at hwy
  have hclock : ClockFits config (t + 200) := by
    have hconfig : config.cyclePerTick = 100 := rfl
    have hinvalid : OS_SORT_LINK_INVALID_TIME = 2 ^ 64 - 1 := rfl
    rw [ClockFits, hconfig, hinvalid]
    omega
  have htake := hset.call (.scanTake 0 (t + 200)) ⟨congrFun hwy 0,rfl⟩ hclock
  have hwake := htake.call (.scanWake 0 (t + 200)) trivial hclock
  have htaken : (posixSystem config 1000).run (quiet y (args + 1) freed) (.scanTake 0 (t + 200)) =
      quiet { y.osDeleteNodeSortLink 0 i with waking := Function.update (fun _ => none) 0 (some (i,t + 200)) } (args + 1) freed := by
    simp [posixSystem, PosixCall.posixRun, SwtmrState.scanTake, quiet, hrqy, hcby, hwy]
  rw [htaken] at hwake
  have htakencb : (y.osDeleteNodeSortLink 0 i).cb i =
      ⟨OS_SORT_LINK_INVALID_TIME,0,.ticking,.noSelfDelete,i,0,0,2,args + 1,SwtmrProc,7,t⟩ := by
    rw [SwtmrState.osDeleteNodeSortLink_same, hcby]
  have htakenrq : (y.osDeleteNodeSortLink 0 i).runqueue 0 = ⟨⟨[],0⟩,[]⟩ := by
    simp [SwtmrState.osDeleteNodeSortLink, SwtmrState.setSortLink, hrqy]
  have htakenidle (c : Nat) (hc : c ≠ 0) : (y.osDeleteNodeSortLink 0 i).runqueue c = ⟨⟨[],0⟩,[]⟩ := by
    rw [SwtmrState.osDeleteNodeSortLink, SwtmrState.setSortLink_other hc, SwtmrState.setCb_runqueue, hidley c hc, hrqx c]
  have htakenother (j : Nat) (hj : j ≠ i) : (y.osDeleteNodeSortLink 0 i).cb j = s.cb j := by
    rw [SwtmrState.osDeleteNodeSortLink_other hj, hothery j hj, hother j hj]
  have htakenfree : (y.osDeleteNodeSortLink 0 i).freeList = l := hfreey.trans hfreex
  generalize y.osDeleteNodeSortLink 0 i = z at *
  obtain ⟨s',hrun,hexpired,hfree',hother'⟩ : ∃ s', (posixSystem config 1000).run (quiet { z with
      waking := Function.update (fun _ => none) 0 (some (i,t + 200)) } (args + 1) freed) (.scanWake 0 (t + 200)) =
        quiet s' (args + 1) freed ∧ Expired s' i (args + 1) t ∧ s'.freeList = l ∧ ∀ j, j ≠ i → s'.cb j = s.cb j := by
    refine ⟨{ z.pushHandler 0 ⟨SwtmrProc,args + 1⟩ with waking := fun _ => none }.setCb i
      ⟨OS_SORT_LINK_INVALID_TIME,0,.created,.noSelfDelete,i,0,0,2,args + 1,SwtmrProc,7,t⟩,?_,⟨rfl,?_,fun c hc => ?_,SwtmrState.setCb_same⟩,
        htakenfree,fun j hj => ?_⟩
    · simp [posixSystem, PosixCall.posixRun, quiet, SwtmrState.scanWake, SwtmrState.swtmrWake, SwtmrState.pushHandler, htakencb,
        SwtmrState.setCb]
    · simp [SwtmrState.setCb, SwtmrState.pushHandler, htakenrq]
    · simp [SwtmrState.setCb, SwtmrState.pushHandler, hc, htakenidle]
    · rw [SwtmrState.setCb_other hj]
      exact htakenother j hj
  rw [hrun] at hwake
  exact ⟨s',hwake,hexpired,hfree',hother'⟩

/-- The first timer has run its handler and is deleted; the handler of the second runs while its argument is held. -/
theorem deleteLaw_expired : ∃ x, x.freed 1 = true ∧ x.running 0 = some ⟨SwtmrProc,2⟩ ∧ DeleteLaw x := by
  obtain ⟨l,-,hfree⟩ := init_freeList
  have hinit : Run.Reachable (posixSystem config 1000) (fun x call => call.Ok config x) (quiet swtmrBaseInit 0 fun _ => false) := .init rfl
  obtain ⟨s,hs,hexpired,hfrees,hother⟩ := reachable_expired (t := 0) hinit rfl hfree (by decide) (by decide) rfl fun _ => rfl
  have hdone := (hs.call (.taskTake 0) ⟨congrFun hexpired.waking 0,rfl⟩ trivial).call (.taskDone 0) trivial trivial
  have hrun : (posixSystem config 1000).run ((posixSystem config 1000).run (quiet s 1 fun _ => false) (.taskTake 0)) (.taskDone 0) =
      quiet { s with runqueue := Function.update s.runqueue 0 ⟨⟨[],0⟩,[]⟩ } 1 fun _ => false := by
    simp [posixSystem, PosixCall.posixRun, PosixState.taskTake, PosixState.taskDone, quiet, hexpired.queue]
  rw [hrun] at hdone
  have hidle (c : Nat) : Function.update s.runqueue 0 ⟨⟨[],0⟩,[]⟩ c = ⟨⟨[],0⟩,[]⟩ := by
    by_cases hc : c = 0
    · rw [hc, Function.update_self]
    · rw [Function.update_of_ne hc, hexpired.idle c hc]
  generalize hx : ({ s with runqueue := Function.update s.runqueue 0 ⟨⟨[],0⟩,[]⟩ } : SwtmrState) = x at hdone
  have hrqx (c : Nat) : x.runqueue c = ⟨⟨[],0⟩,[]⟩ := hx ▸ hidle c
  have hcbx : x.cb 0 = ⟨OS_SORT_LINK_INVALID_TIME,0,.created,.noSelfDelete,0,0,0,2,1,SwtmrProc,7,0⟩ := hx ▸ hexpired.cb
  have hcbx1 : x.cb 1 = swtmrBaseInit.cb 1 := hx ▸ hother 1 (by decide)
  have hfreex : x.freeList = 1 :: l := hx ▸ hfrees
  have hwx : x.waking = fun _ => none := hx ▸ hexpired.waking
  have hdelete := hdone.call (.timerDelete 7 false 0) trivial fun _ _ _ => ⟨?_,fun _ => ?_⟩
  · have hmax : OS_SWTMR_MAX_TIMERID = 64512 := rfl
    have hdeleted : (posixSystem config 1000).run (quiet x 1 fun _ => false) (.timerDelete 7 false 0) =
        quiet (x.swtmrDelete 0) 1 (Function.update (fun _ => false) 1 true) := by
      simp [posixSystem, PosixCall.posixRun, PosixState.timer_delete, PosixState.validTimerID, quiet, hcbx,
        SwtmrState.losSwtmrDelete, hmax, PosixState.free]
    rw [hdeleted] at hdelete
    obtain ⟨y,hy,hexpired2,-,-⟩ := reachable_expired (t := 1000) hdelete hwx (congrArg (· ++ [0]) hfreex) (by decide) (by decide)
      ((SwtmrState.swtmrDelete_other (by decide)).trans hcbx1) hrqx
    have htake := hy.call (.taskTake 0) ⟨congrFun hexpired2.waking 0,rfl⟩ trivial
    refine ⟨_,?_,?_,deleteLaw_of_reachable config 1000 _ htake⟩
    · simp [posixSystem, PosixCall.posixRun, PosixState.taskTake, quiet, hexpired2.queue]
    · simp [posixSystem, PosixCall.posixRun, PosixState.taskTake, quiet, hexpired2.queue]
  · rintro ⟨c,u,hc⟩
    exact absurd ((congrFun hwx c).symm.trans hc) (Option.some_ne_none _).symm
  · rintro ⟨c,hc | hc⟩
    · rw [show (quiet x 1 fun _ => false).swtmr.runqueue c = ⟨⟨[],0⟩,[]⟩ from hrqx c] at hc
      exact absurd hc List.not_mem_nil
    · exact absurd hc (Option.some_ne_none _).symm

/-- timer_delete between the scan and the handler leaves an item with a free argument. -/
theorem deleteLaw_fails_queued : ¬ ∀ x, Run.Reachable (posixSystem config 1000) (fun _ _ => True) x → DeleteLaw x := by
  intro h
  obtain ⟨l,-,hfree⟩ := init_freeList
  have hinit : Run.Reachable (posixSystem config 1000) (fun x call => call.Ok config x) (quiet swtmrBaseInit 0 fun _ => false) := .init rfl
  obtain ⟨s,hs,hexpired,-,-⟩ := reachable_expired (t := 0) hinit rfl hfree (by decide) (by decide) rfl fun _ => rfl
  have hdelete := (hs.mono fun _ _ _ => trivial).call (.timerDelete 7 false 0) trivial trivial
  have hmax : OS_SWTMR_MAX_TIMERID = 64512 := rfl
  have hrun : (posixSystem config 1000).run (quiet s 1 fun _ => false) (.timerDelete 7 false 0) =
      (quiet (s.swtmrDelete 0) 1 fun _ => false).free 1 := by
    simp [posixSystem, PosixCall.posixRun, PosixState.timer_delete, PosixState.validTimerID, quiet, hexpired.cb,
      SwtmrState.losSwtmrDelete, hmax]
  rw [hrun] at hdelete
  have htake := hdelete.call (.taskTake 0) ⟨congrFun hexpired.waking 0,rfl⟩ trivial
  have hqueue : ((s.swtmrDelete 0).runqueue 0).swtmrHandlerQueue = [⟨SwtmrProc,1⟩] := congrArg SwtmrRunqueue.swtmrHandlerQueue hexpired.queue
  have hlaw := h _ htake 0 ⟨SwtmrProc,1⟩ ?_ rfl
  · simp [posixSystem, PosixCall.posixRun, PosixState.taskTake, quiet, PosixState.free, hqueue] at hlaw
  · simp [posixSystem, PosixCall.posixRun, PosixState.taskTake, quiet, PosixState.free, hqueue]

end LiteOsKernel.Posix
