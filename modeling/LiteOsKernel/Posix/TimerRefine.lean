import LiteOsKernel.Posix.TimerPeriod

/-! The calls on a timer do with its block what the calls on the block alone do. -/
namespace LiteOsKernel.Posix
open Swtmr

variable {cfg : SwtmrConfig} {swtmr : SwtmrCtrl} {s : SwtmrState} {x : PeriodState} {i c startTime currTime T : Nat}

/-- The block but for the CPU of its list, which no call on the block alone reads. -/
def anyCpu (swtmr : SwtmrCtrl) : SwtmrCtrl := { swtmr with cpuid := 0 }

/-- Block i is that of x. -/
def Shows (s : SwtmrState) (i : Nat) (x : PeriodState) : Prop := anyCpu (s.cb i) = anyCpu x.swtmr

private theorem startResponse_anyCpu (cfg : SwtmrConfig) (currTime : Nat) (swtmr : SwtmrCtrl) :
    (startResponse cfg currTime swtmr).map anyCpu = startResponse cfg currTime (anyCpu swtmr) := by
  have hticks : startTicks { anyCpu swtmr with ucState := .ticking } = startTicks { swtmr with ucState := .ticking } := rfl
  have hstart : (anyCpu swtmr).startTime = swtmr.startTime := rfl
  simp only [startResponse, hticks]
  simp only [hstart]
  split_ifs
  · rfl
  · rfl
  · rfl

private theorem startCb_anyCpu (cfg : SwtmrConfig) (startTime currTime : Nat) (swtmr : SwtmrCtrl) :
    (startCb cfg startTime currTime swtmr).map anyCpu = startCb cfg startTime currTime (anyCpu swtmr) :=
  startResponse_anyCpu cfg currTime _

private theorem stopTicking_anyCpu (swtmr : SwtmrCtrl) : anyCpu (stopTicking swtmr) = stopTicking (anyCpu swtmr) := by
  have hstate : (anyCpu swtmr).ucState = swtmr.ucState := rfl
  rw [stopTicking, stopTicking, hstate]
  split_ifs
  · rfl
  · rfl

private theorem wakeCb_anyCpu (cfg : SwtmrConfig) (currTime : Nat) (swtmr : SwtmrCtrl) :
    (wakeCb cfg currTime swtmr).map anyCpu = wakeCb cfg currTime (anyCpu swtmr) := by
  have hmode : (anyCpu swtmr).ucMode = swtmr.ucMode := rfl
  by_cases h : swtmr.ucMode = .once
  · rw [wakeCb_once h, wakeCb_once (hmode.trans h)]
    rfl
  · by_cases h' : swtmr.ucMode = .noSelfDelete
    · rw [wakeCb_noSelfDelete h', wakeCb_noSelfDelete (hmode.trans h')]
      rfl
    · rw [wakeCb_periodic h h', wakeCb_periodic (fun he => h (hmode.symm.trans he)) fun he => h' (hmode.symm.trans he)]
      exact startResponse_anyCpu cfg currTime _

private theorem swtmrStop_cb (s : SwtmrState) (i : Nat) : (s.swtmrStop i).cb i = stopCb (s.cb i) := by
  rw [SwtmrState.swtmrStop, SwtmrState.deSwtmrFromTimeList, SwtmrState.setCb_same]
  split_ifs with h
  · rw [SwtmrState.osDeleteNodeSortLink_same, SwtmrState.setCb_same]
    rfl
  · rw [SwtmrState.setCb_same, stopCb]
    exact congrArg (fun r => { s.cb i with ucState := .created, uwOverrun := 0, responseTime := r }) (not_not.mp h)

private theorem swtmrToStart_cb (s : SwtmrState) (cfg : SwtmrConfig) (currTime i c : Nat) :
    (s.swtmrToStart cfg currTime i c).map (fun s => anyCpu (s.cb i)) = startResponse cfg currTime (anyCpu (s.cb i)) := by
  rw [← startResponse_anyCpu, SwtmrState.swtmrToStart, Option.map_map]
  refine congrArg (Option.map · _) (funext fun started => ?_)
  simp only [Function.comp, SwtmrState.addSwtmr2TimeList, SwtmrState.setSortLink_cb, SwtmrState.setCb_same]
  rfl

private theorem swtmrStart_cb (s : SwtmrState) (cfg : SwtmrConfig) (startTime currTime i : Nat) :
    (s.swtmrStart cfg startTime currTime i).map (fun s => anyCpu (s.cb i)) = startCb cfg startTime currTime (anyCpu (s.cb i)) := by
  rw [SwtmrState.swtmrStart]
  refine (swtmrToStart_cb _ cfg currTime i _).trans ?_
  rw [SwtmrState.setCb_same]
  rfl

/-- SwtmrWake of a timer that a CPU has taken off its list. -/
private theorem swtmrWake_cb (hcb : s.cb i = { swtmr with responseTime := OS_SORT_LINK_INVALID_TIME }) (cfg : SwtmrConfig) (c currTime : Nat) :
    (s.swtmrWake cfg c swtmr.responseTime currTime i).map (fun s => anyCpu (s.cb i)) = wakeCb cfg currTime (anyCpu swtmr) := by
  rw [← wakeCb_anyCpu, SwtmrState.swtmrWake]
  have hcb' : (s.pushHandler c ⟨(s.cb i).pfnHandler,(s.cb i).uwArg⟩).cb i = { swtmr with responseTime := OS_SORT_LINK_INVALID_TIME } := hcb
  generalize s.pushHandler c ⟨(s.cb i).pfnHandler,(s.cb i).uwArg⟩ = x at hcb'
  have hmode : (x.cb i).ucMode = swtmr.ucMode := by rw [hcb']
  split
  next hm =>
    rw [wakeCb_once (hmode.symm.trans hm), Option.map_some, Option.map_some, SwtmrState.setCb_same, SwtmrState.swtmrDelete_same, hcb']
  next hm =>
    rw [wakeCb_noSelfDelete (hmode.symm.trans hm), Option.map_some, Option.map_some, SwtmrState.setCb_same, hcb']
  next hnot hnot' =>
    rw [wakeCb_periodic (fun hm => hnot (hmode.trans hm)) fun hm => hnot' (hmode.trans hm), startResponse_anyCpu]
    refine (swtmrToStart_cb _ cfg currTime i _).trans ?_
    rw [SwtmrState.setCb_same, hcb']

/-- LOS_SwtmrCreate that takes the block from the free list. -/
theorem create_refines (h : Shows s i x) {l : List Nat} (hfirst : s.freeList = i :: l) (hi : (s.cb i).ucState = .unused)
    (owner interval : Nat) (mode : SwtmrMode) (handler arg : Nat) :
    some (anyCpu ((s.losSwtmrCreate owner interval mode handler true arg).1.cb i)) =
      (x.periodRun cfg T (.create owner interval mode handler arg)).map (anyCpu ·.swtmr) := by
  have hstate : x.swtmr.ucState = .unused := (congrArg SwtmrCtrl.ucState h).symm.trans hi
  have hmode : (mode ≠ .once ∧ mode ≠ .period ∧ mode ≠ .noSelfDelete) ↔ mode = .opp := by
    cases mode
    all_goals simp
  rw [SwtmrState.losSwtmrCreate]
  split_ifs with h0 h1 h2 h3
  · rw [PeriodState.periodRun, if_neg fun hc => hc.2.1 h0]
    exact congrArg some h
  · rw [PeriodState.periodRun, if_neg fun hc => hc.2.2.1 (hmode.mp h1)]
    exact congrArg some h
  · rw [PeriodState.periodRun, if_neg fun hc => hc.2.2.2 h2]
    exact congrArg some h
  · exact h3.elim
  · rw [PeriodState.periodRun, if_pos ⟨hstate,h0,fun hm => h1 (hmode.mpr hm),h2⟩, hfirst]
    refine congrArg some ?_
    rw [SwtmrState.setCb_same]
    exact congrArg (SwtmrState.createdCb · owner interval mode handler arg) h

/-- LOS_SwtmrStop by the ID of the block. -/
private theorem stop_refines (hid : IdFits i (s.cb i)) (h : Shows s i x) :
    anyCpu ((s.losSwtmrStop (s.cb i).usTimerID).1.cb i) = stopTicking (anyCpu x.swtmr) := by
  rw [← h, ← stopTicking_anyCpu, stopTicking, SwtmrState.losSwtmrStop, hid.mod, if_neg (not_le.mpr hid.lt), if_neg (not_not.mpr rfl)]
  split
  next hs => rw [if_neg (by simp [hs])]
  next hs => rw [if_neg (by simp [hs])]
  next hs => rw [if_pos hs, swtmrStop_cb]

/-- LOS_SwtmrStart by the ID of the block. -/
private theorem start_refines (cfg : SwtmrConfig) (T startTime currTime : Nat) (hid : IdFits i (s.cb i)) (h : Shows s i x) :
    (s.losSwtmrStart cfg startTime currTime (s.cb i).usTimerID).map (fun r => anyCpu (r.1.cb i)) =
      (x.periodRun cfg T (.start startTime currTime)).map (anyCpu ·.swtmr) := by
  have hstate : x.swtmr.ucState = (s.cb i).ucState := (congrArg SwtmrCtrl.ucState h).symm
  have hstart (swtmr : SwtmrCtrl) : (PeriodState.startTimer cfg swtmr startTime currTime).map (anyCpu ·.swtmr) =
      startCb cfg startTime currTime (anyCpu swtmr) := by
    rw [← startCb_anyCpu, PeriodState.startTimer, Option.map_map]
    rfl
  rw [SwtmrState.losSwtmrStart, hid.mod, if_neg (not_le.mpr hid.lt), if_neg (not_not.mpr rfl), PeriodState.periodRun, hstate]
  split
  next hs =>
    rw [if_pos hs]
    exact congrArg some h
  next hs =>
    rw [if_neg (by simp [hs]), hstart, stopTicking_anyCpu, ← h, ← stopTicking_anyCpu, stopTicking, if_pos hs, Option.map_map]
    refine (swtmrStart_cb _ cfg startTime currTime i).trans ?_
    rw [swtmrStop_cb]
  next hs =>
    rw [if_neg (by simp [hs]), hstart, stopTicking_anyCpu, ← h, ← stopTicking_anyCpu, stopTicking, if_neg (by simp [hs]), Option.map_map]
    exact swtmrStart_cb s cfg startTime currTime i

/-- timer_settime by the owner of the timer. -/
theorem settime_refines (hid : IdFits i (s.cb i)) (h : Shows s i x) (value : ItimerSpec) :
    (PosixState.timer_settime s cfg T startTime currTime (s.cb i).uwOwnerPid false (s.cb i).usTimerID 0 (some value)).map
      (fun r => anyCpu (r.1.cb i)) = (x.periodRun cfg T (.settime value startTime currTime)).map (anyCpu ·.swtmr) := by
  have hmax : OS_SWTMR_MAX_TIMERID = 64512 := rfl
  have hlt := hid.lt
  have hmod : (s.cb i).usTimerID % 2 ^ 16 = (s.cb i).usTimerID := Nat.mod_eq_of_lt (by omega)
  have hvalid : PosixState.validTimerID s (s.cb i).uwOwnerPid (s.cb i).usTimerID = true := by
    simp [PosixState.validTimerID, hid.mod, hlt]
  have hstate : x.swtmr.ucState = (s.cb i).ucState := (congrArg SwtmrCtrl.ucState h).symm
  have hstop := stop_refines hid h
  have hret : (s.losSwtmrStop (s.cb i).usTimerID).2 ≠ .ok () ∧ (s.losSwtmrStop (s.cb i).usTimerID).2 ≠ .error .notStarted ↔
      (s.cb i).ucState = .unused := by
    rw [SwtmrState.losSwtmrStop, hid.mod, if_neg (not_le.mpr hlt), if_neg (not_not.mpr rfl)]
    split
    next hs => simp [hs]
    next hs => simp [hs]
    next hs => simp [hs]
  have hkept : ((s.losSwtmrStop (s.cb i).usTimerID).1.cb i).usTimerID = (s.cb i).usTimerID := by
    refine (congrArg SwtmrCtrl.usTimerID hstop).trans ?_
    rw [← h, stopTicking]
    split_ifs
    · rfl
    · rfl
  simp only [PosixState.timer_settime, hmod, hid.mod, hvalid]
  rw [if_neg (by decide), if_neg (by simp), PeriodState.periodRun, hstate]
  by_cases hspec : validTimeSpec value.it_value = false ∨ validTimeSpec value.it_interval = false
  · rw [if_pos hspec, if_pos (.inr hspec), Option.map_some, Option.map_some]
    rw [h]
  rw [if_neg hspec]
  by_cases hunused : (s.cb i).ucState = .unused
  · rw [if_pos (hret.mpr hunused), if_pos (.inl hunused)]
    have hidle : (s.losSwtmrStop (s.cb i).usTimerID).1 = s := by
      rw [SwtmrState.losSwtmrStop, hid.mod, if_neg (not_le.mpr hlt), if_neg (not_not.mpr rfl), hunused]
    rw [Option.map_some, Option.map_some, hidle, h]
  rw [if_neg (fun hr => hunused (hret.mp hr)), if_neg (not_or.mpr ⟨hunused,hspec⟩)]
  generalize (s.losSwtmrStop (s.cb i).usTimerID).1 = stopped at hstop hkept
  have hblock : anyCpu (PosixState.settimeCb (stopped.cb i) (osTimeSpec2Tick T value.it_value) (osTimeSpec2Tick T value.it_interval)) =
      anyCpu (settimeBlock T x.swtmr value) := by
    rw [← stopTicking_anyCpu] at hstop
    exact congrArg (PosixState.settimeCb · (osTimeSpec2Tick T value.it_value) (osTimeSpec2Tick T value.it_interval)) hstop
  generalize hset : stopped.setCb i (PosixState.settimeCb (stopped.cb i) (osTimeSpec2Tick T value.it_value)
    (osTimeSpec2Tick T value.it_interval)) = y
  have hy : y.cb i = PosixState.settimeCb (stopped.cb i) (osTimeSpec2Tick T value.it_value) (osTimeSpec2Tick T value.it_interval) :=
    hset ▸ SwtmrState.setCb_same
  rw [← hy] at hblock
  by_cases hzero : value.it_value.tv_sec = 0 ∧ value.it_value.tv_nsec = 0
  · rw [if_pos hzero, if_pos hzero, Option.map_some, Option.map_some, hblock]
  · rw [if_neg hzero, if_neg hzero, Option.map_map]
    -- a block that timer_settime has written does not tick, and starts as it is
    have hidy : IdFits i (y.cb i) := by
      obtain ⟨hlt,hmod⟩ := hid
      rw [← hkept] at hlt hmod
      rw [hy]
      exact ⟨hlt,hmod⟩
    have hstarts := start_refines cfg T startTime currTime hidy
      (x := ⟨settimeBlock T x.swtmr value,x.time,x.first⟩) hblock
    have hlive : (settimeBlock T x.swtmr value).ucState ≠ .unused := by
      rw [settimeBlock, PosixState.settimeCb]
      exact fun he => hunused (hstate.symm.trans ((stopTicking_spec x.swtmr).2.1.mp he))
    rw [PeriodState.periodRun, if_neg hlive, stopTicking, if_neg (settimeBlock_state T x.swtmr value)] at hstarts
    exact hstarts

/-- A round of ScanSwtmrTimeList on the CPU whose list the timer is first on. -/
theorem scan_refines (h : Shows s i x) {rest : List Nat} (hfirst : (s.runqueue c).swtmrSortLink.sortLink = i :: rest)
    (hi : (s.cb i).ucState = .ticking) (hw : s.waking c = none) (scanTime : Nat) :
    ((s.scanTake c scanTime).scanWake cfg c currTime).map (fun s => anyCpu (s.cb i)) =
      (x.periodRun cfg T (.scan scanTime currTime)).map (anyCpu ·.swtmr) := by
  have hstate : x.swtmr.ucState = .ticking := (congrArg SwtmrCtrl.ucState h).symm.trans hi
  have htime : x.swtmr.responseTime = (s.cb i).responseTime := (congrArg SwtmrCtrl.responseTime h).symm
  rw [SwtmrState.scanTake, hfirst, PeriodState.periodRun, hstate, htime]
  by_cases hdue : (s.cb i).responseTime ≤ scanTime
  · rw [if_pos ⟨rfl,hdue⟩, Option.map_map]
    simp only [if_pos hdue]
    generalize htaken : ({ s.osDeleteNodeSortLink c i with
      waking := Function.update s.waking c (some (i,(s.cb i).responseTime)) } : SwtmrState) = y
    have hcb : y.cb i = { s.cb i with responseTime := OS_SORT_LINK_INVALID_TIME } := by
      rw [← htaken]
      exact SwtmrState.osDeleteNodeSortLink_same (c := c)
    have hwy : y.waking c = some (i,(s.cb i).responseTime) := htaken ▸ Function.update_self ..
    have hwake := swtmrWake_cb hcb cfg c currTime
    rw [show anyCpu (s.cb i) = anyCpu x.swtmr from h, ← wakeCb_anyCpu] at hwake
    rw [SwtmrState.scanWake, hwy, Option.map_map]
    exact hwake
  · simp only [if_neg hdue, SwtmrState.scanWake, hw]
    rw [if_neg fun hd => hdue hd.2, Option.map_some, Option.map_some, h]

end LiteOsKernel.Posix
