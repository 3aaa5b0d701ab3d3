import LiteOsKernel.Swtmr.SwtmrKept
import LiteOsKernel.Lib.Run

/-! The lists of the timers along every run of the timer calls and of the scans, which come to a timer in two steps. -/
namespace LiteOsKernel.Swtmr

/-- The clock is more than the longest timer away from its end. -/
def ClockFits (cfg : SwtmrConfig) (time : Nat) : Prop := time + 2 ^ 32 * cfg.cyclePerTick < OS_SORT_LINK_INVALID_TIME

instance (cfg : SwtmrConfig) (time : Nat) : Decidable (ClockFits cfg time) := inferInstanceAs (Decidable (_ < _))

variable {s s' : SwtmrState} {cfg : SwtmrConfig} {swtmr : SwtmrCtrl} {i currTime startTime swtmrID : Nat} {l : List Nat} {hole : Set Nat}

private theorem startTicks_fit (h : TicksFit swtmr) : startTicks swtmr < 2 ^ 32 := by
  rw [startTicks]
  split_ifs
  · exact h.expiry
  · exact h.interval

/-- What SwtmrToStart makes of a block, where it does not divide by zero. -/
private theorem startResponse_fits (ht : TicksFit swtmr) (hstart : ClockFits cfg swtmr.startTime) (hcurr : ClockFits cfg currTime)
    {started : SwtmrCtrl} (hs : startResponse cfg currTime swtmr = some started) :
    started.ucState = .ticking ∧ started.responseTime < OS_SORT_LINK_INVALID_TIME ∧
      started = { swtmr with ucState := .ticking, startTime := started.startTime, responseTime := started.responseTime } := by
  have hbound : startTicks swtmr * cfg.cyclePerTick < 2 ^ 32 * cfg.cyclePerTick :=
    Nat.mul_lt_mul_of_pos_right (startTicks_fit ht) cfg.pos
  have hinvalid : OS_SORT_LINK_INVALID_TIME + 1 = 2 ^ 64 := rfl
  rw [ClockFits] at hstart hcurr
  have hticks : startTicks { swtmr with ucState := .ticking } = startTicks swtmr := rfl
  simp only [startResponse, hticks] at hs
  generalize startTicks swtmr * cfg.cyclePerTick = period at *
  have hresp : (swtmr.startTime + period) % 2 ^ 64 = swtmr.startTime + period := Nat.mod_eq_of_lt (by omega)
  rw [hresp] at hs
  split_ifs at hs with hdue hzero
  · have hdiff : (currTime + 2 ^ 64 - swtmr.startTime) % 2 ^ 64 = currTime - swtmr.startTime := by
      rw [Nat.sub_add_comm (by omega), Nat.add_mod_right, Nat.mod_eq_of_lt (by omega)]
    have hle : (currTime - swtmr.startTime) / period % 2 ^ 32 * period ≤ currTime - swtmr.startTime :=
      (Nat.mul_le_mul_right period (Nat.mod_le ..)).trans (Nat.div_mul_le_self ..)
    rw [hdiff] at hs
    generalize (currTime - swtmr.startTime) / period % 2 ^ 32 * period = missed at *
    obtain rfl := Option.some.inj hs
    refine ⟨rfl,?_,rfl⟩
    simp only
    rw [Nat.mod_eq_of_lt (by omega : swtmr.startTime + missed < 2 ^ 64), Nat.mod_eq_of_lt (by omega)]
    omega
  · obtain rfl := Option.some.inj hs
    exact ⟨rfl,by simp only; omega,rfl⟩

theorem limit_le_max : LOSCFG_BASE_CORE_SWTMR_LIMIT ≤ OS_SWTMR_MAX_TIMERID := by decide

private theorem init_inv : SwtmrInv ∅ swtmrBaseInit := by
  have hstate (i : Nat) : (swtmrBaseInit.cb i).ucState = .unused := rfl
  have hlink (c : Nat) : (swtmrBaseInit.runqueue c).swtmrSortLink.sortLink = [] := rfl
  have hfree : swtmrBaseInit.freeList = List.range LOSCFG_BASE_CORE_SWTMR_LIMIT := by simp only [swtmrBaseInit]
  have hticks (i : Nat) : (swtmrBaseInit.cb i).uwInterval = 0 ∧ (swtmrBaseInit.cb i).uwExpiry = 0 := ⟨rfl,rfl⟩
  refine ⟨?_,fun i => ?_,fun c => ?_,fun c i => ?_,fun i hi => ?_,fun i _ hi => ?_,fun i => ?_,fun i hi => ?_,fun c => ?_,
    fun c => ?_⟩
  · rw [hfree]
    exact List.nodup_range
  · rw [hfree, List.mem_range, hstate]
    simp
  · rw [hlink]
    exact List.nodup_nil
  · rw [hlink, hstate]
    simp
  · exact absurd (hstate i) hi
  · rw [hstate] at hi
    exact absurd hi (by decide)
  · refine ⟨?_,?_⟩
    · rw [(hticks i).1]
      decide
    · rw [(hticks i).2]
      decide
  · exact ⟨hi.trans_le limit_le_max,Nat.mod_eq_of_lt hi⟩
  · rw [hlink]
    exact List.Pairwise.nil
  · rfl

/-- SwtmrStop of a ticking timer: it is created, and on no list. -/
theorem stop_inv (h : SwtmrInv hole s) (hh : i ∉ hole) (hi : (s.cb i).ucState = .ticking) : SwtmrInv hole (s.swtmrStop i) ∧
    (s.swtmrStop i).cb i = { s.cb i with ucState := .created, uwOverrun := 0, responseTime := OS_SORT_LINK_INVALID_TIME } ∧
      (∀ j, j ≠ i → (s.swtmrStop i).cb j = s.cb j) ∧ (s.swtmrStop i).freeList = s.freeList ∧
        ∀ c, ((s.swtmrStop i).runqueue c).swtmrSortLink.sortLink = (s.runqueue c).swtmrSortLink.sortLink.erase i := by
  have hlt := h.live i (by simp [hi])
  have htime := h.time i hh hi
  have hstop : s.swtmrStop i = (s.osDeleteNodeSortLink (s.cb i).cpuid i).setCb i
      { s.cb i with ucState := .created, uwOverrun := 0, responseTime := OS_SORT_LINK_INVALID_TIME } := by
    rw [SwtmrState.swtmrStop, SwtmrState.deSwtmrFromTimeList, SwtmrState.setCb_same, if_pos htime.ne]
    simp [SwtmrState.osDeleteNodeSortLink, SwtmrState.setCb, SwtmrState.setSortLink]
  obtain ⟨h1,h2⟩ := h.ticks i
  obtain ⟨h3,h4⟩ := h.ids i hlt
  refine ⟨?_,?_,fun j hj => ?_,?_,fun c => ?_⟩
  · rw [hstop]
    refine (SwtmrInv.created ?_).mpr ((h.deleteNode hh hi).setCb_hole (Set.mem_insert i hole) hlt ⟨h1,h2⟩ ⟨h3,h4⟩)
    rw [SwtmrState.setCb_same]
  · rw [hstop, SwtmrState.setCb_same]
  · rw [hstop, SwtmrState.setCb_other hj, SwtmrState.osDeleteNodeSortLink_other hj]
  · rw [hstop]
    rfl
  · rw [hstop, SwtmrState.setCb_runqueue, SwtmrState.osDeleteNodeSortLink_link]
    split_ifs with hc
    · rfl
    · exact (List.erase_of_not_mem fun hm => hc ((h.link c i).mp hm).2.2.symm).symm

private theorem create_inv (h : SwtmrInv hole s) (owner : Nat) {interval : Nat} (hlt : interval < 2 ^ 32) (mode : SwtmrMode) (handler : Nat)
    (swtmrID : Bool) (arg : Nat) : SwtmrInv hole (s.losSwtmrCreate owner interval mode handler swtmrID arg).1 := by
  rw [SwtmrState.losSwtmrCreate]
  split_ifs with h0 h1 h2 h3
  · exact h
  · exact h
  · exact h
  · exact h
  · split
    · exact h
    next i freeList hfree =>
    have hmem := h.free i
    rw [hfree] at hmem
    obtain ⟨hh,hi,hunused⟩ := hmem.mp List.mem_cons_self
    have hnodup := List.nodup_cons.mp (hfree ▸ h.nodup)
    have hpop : SwtmrInv (insert i hole) { s with freeList := freeList } := by
      refine ⟨hnodup.2,fun j => ?_,h.linkNodup,fun c j => ?_,h.live,fun j hj => h.time j fun hm => hj (Set.mem_insert_of_mem i hm),
        h.ticks,h.ids,h.sorted,h.nodeNum⟩
      · have hj := h.free j
        rw [hfree, List.mem_cons] at hj
        by_cases hji : j = i
        · subst hji
          exact iff_of_false hnodup.1 fun hm => hm.1 (Set.mem_insert j hole)
        · simpa [hji] using hj
      · refine (h.link c j).trans ?_
        by_cases hji : j = i
        · subst hji
          simp [hunused]
        · simp [hji]
    obtain ⟨h3,h4⟩ := h.ids i hi
    refine (SwtmrInv.created ?_).mpr (hpop.setCb_hole (Set.mem_insert i hole) hi ⟨hlt,hlt⟩ ⟨h3,h4⟩)
    rw [SwtmrState.setCb_same]
    rfl

/-- SwtmrToStart of a timer that is on its way. -/
private theorem toStart_inv (h : SwtmrInv (insert i hole) s) (hh : i ∉ hole) (hi : i < LOSCFG_BASE_CORE_SWTMR_LIMIT)
    (hstart : ClockFits cfg (s.cb i).startTime) (hcurr : ClockFits cfg currTime) {c : Nat}
    (hs : s.swtmrToStart cfg currTime i c = some s') : SwtmrInv hole s' := by
  rw [SwtmrState.swtmrToStart, Option.map_eq_some_iff] at hs
  obtain ⟨started,hstarted,rfl⟩ := hs
  obtain ⟨hstate,htime,heq⟩ := startResponse_fits (h.ticks i) hstart hcurr hstarted
  obtain ⟨h1,h2⟩ := h.ticks i
  obtain ⟨h3,h4⟩ := h.ids i hi
  refine h.add hh hi hstate htime ?_ ?_ c
  · rw [heq]
    exact ⟨h1,h2⟩
  · rw [heq]
    exact ⟨h3,h4⟩

theorem start_inv (h : SwtmrInv hole s) (hh : i ∉ hole) (hi : (s.cb i).ucState = .created) (hstart : ClockFits cfg startTime)
    (hcurr : ClockFits cfg currTime) (hs : s.swtmrStart cfg startTime currTime i = some s') : SwtmrInv hole s' := by
  have hlt := h.live i (by simp [hi])
  obtain ⟨h1,h2⟩ := h.ticks i
  obtain ⟨h3,h4⟩ := h.ids i hlt
  have hset : SwtmrInv (insert i hole) (s.setCb i { s.cb i with startTime := startTime }) :=
    ((SwtmrInv.created hi).mp h).setCb_hole (Set.mem_insert i hole) hlt ⟨h1,h2⟩ ⟨h3,h4⟩
  refine toStart_inv hset hh hlt ?_ hcurr hs
  rw [SwtmrState.setCb_same]
  exact hstart

private theorem losStart_inv (h : SwtmrInv hole s) (hstart : ClockFits cfg startTime) (hcurr : ClockFits cfg currTime) {swtmrID : Nat}
    (hh : swtmrID % LOSCFG_BASE_CORE_SWTMR_LIMIT ∉ hole) {r : Except SwtmrErrno Unit}
    (hs : s.losSwtmrStart cfg startTime currTime swtmrID = some (s',r)) : SwtmrInv hole s' := by
  rw [SwtmrState.losSwtmrStart] at hs
  split_ifs at hs with h1 h2
  · obtain ⟨rfl,-⟩ := Prod.mk.inj (Option.some.inj hs)
    exact h
  · obtain ⟨rfl,-⟩ := Prod.mk.inj (Option.some.inj hs)
    exact h
  · split at hs
    next =>
      obtain ⟨rfl,-⟩ := Prod.mk.inj (Option.some.inj hs)
      exact h
    next hstate =>
      obtain ⟨hinv,hcb,-⟩ := stop_inv h hh hstate
      obtain ⟨x,hx,he⟩ := Option.map_eq_some_iff.mp hs
      obtain ⟨rfl,-⟩ := Prod.mk.inj he
      exact start_inv hinv hh (congrArg SwtmrCtrl.ucState hcb) hstart hcurr hx
    next hstate =>
      obtain ⟨x,hx,he⟩ := Option.map_eq_some_iff.mp hs
      obtain ⟨rfl,-⟩ := Prod.mk.inj he
      exact start_inv h hh hstate hstart hcurr hx

private theorem losStop_inv (h : SwtmrInv hole s) {swtmrID : Nat} (hh : swtmrID % LOSCFG_BASE_CORE_SWTMR_LIMIT ∉ hole) :
    SwtmrInv hole (s.losSwtmrStop swtmrID).1 := by
  rw [SwtmrState.losSwtmrStop]
  split_ifs with h1 h2
  · exact h
  · exact h
  · split
    next => exact h
    next => exact h
    next hs => exact (stop_inv h hh hs).1

theorem losDelete_inv (h : SwtmrInv hole s) {swtmrID : Nat} (hh : swtmrID % LOSCFG_BASE_CORE_SWTMR_LIMIT ∉ hole) :
    SwtmrInv hole (s.losSwtmrDelete swtmrID).1 := by
  have hlt := Nat.mod_lt swtmrID (by decide : LOSCFG_BASE_CORE_SWTMR_LIMIT > 0)
  rw [SwtmrState.losSwtmrDelete]
  split_ifs with h1 h2
  · exact h
  · exact h
  · split
    next => exact h
    next hs =>
      obtain ⟨hinv,hcb,-⟩ := stop_inv h hh hs
      exact ((SwtmrInv.created (congrArg SwtmrCtrl.ucState hcb)).mp hinv).delete hh hlt
    next hs => exact ((SwtmrInv.created hs).mp h).delete hh hlt

/-- The next ID of a block leads back to it too. -/
private theorem nextTimerID_fits (h : IdFits i swtmr) : IdFits i { swtmr with usTimerID := SwtmrState.nextTimerID swtmr.usTimerID } := by
  obtain ⟨hlt,hmod⟩ := h
  have hlimit : LOSCFG_BASE_CORE_SWTMR_LIMIT = 1024 := rfl
  have hmax : OS_SWTMR_MAX_TIMERID = 64512 := rfl
  simp only [hlimit, hmax] at hlt hmod
  refine ⟨?_,?_⟩
  · simp only [SwtmrState.nextTimerID, hlimit, hmax]
    split_ifs
    · omega
    · omega
  · simp only [SwtmrState.nextTimerID, hlimit, hmax]
    split_ifs
    · omega
    · omega

/-- Items in the handler queues are on no list of timers. -/
theorem runqueue_inv (h : SwtmrInv hole s) {runqueue : Nat → SwtmrRunqueue}
    (hlink : ∀ d, (runqueue d).swtmrSortLink = (s.runqueue d).swtmrSortLink) : SwtmrInv hole { s with runqueue := runqueue } :=
  ⟨h.nodup,h.free,fun d => hlink d ▸ h.linkNodup d,fun d j => hlink d ▸ h.link d j,h.live,h.time,h.ticks,h.ids,
    fun d => hlink d ▸ h.sorted d,fun d => hlink d ▸ h.nodeNum d⟩

private theorem pushHandler_inv (h : SwtmrInv hole s) (c : Nat) (item : SwtmrHandlerItem) : SwtmrInv hole (s.pushHandler c item) := by
  refine runqueue_inv h fun d => ?_
  by_cases hd : d = c
  · subst hd
    rw [Function.update_self]
  · rw [Function.update_of_ne hd]

/-- SwtmrWake puts a timer that is on its way where its mode says. -/
theorem wake_inv (h : SwtmrInv (insert i hole) s) (hh : i ∉ hole) (hi : i < LOSCFG_BASE_CORE_SWTMR_LIMIT)
    (hstart : ClockFits cfg startTime) (hcurr : ClockFits cfg currTime) {c : Nat}
    (hs : s.swtmrWake cfg c startTime currTime i = some s') : SwtmrInv hole s' := by
  have hpush := pushHandler_inv h c ⟨(s.cb i).pfnHandler,(s.cb i).uwArg⟩
  obtain ⟨h1,h2⟩ := h.ticks i
  obtain ⟨h3,h4⟩ := h.ids i hi
  rw [SwtmrState.swtmrWake] at hs
  have hcb : (s.pushHandler c ⟨(s.cb i).pfnHandler,(s.cb i).uwArg⟩).cb i = s.cb i := rfl
  generalize s.pushHandler c ⟨(s.cb i).pfnHandler,(s.cb i).uwArg⟩ = x at hs hpush hcb
  rw [← hcb] at h1 h2 h3 h4
  have hset (overrun : Nat) : SwtmrInv (insert i hole) (x.setCb i { x.cb i with uwOverrun := overrun, startTime := startTime }) :=
    hpush.setCb_hole (Set.mem_insert i hole) hi ⟨h1,h2⟩ ⟨h3,h4⟩
  split at hs
  next =>
    obtain rfl := Option.some.inj hs
    exact (hpush.delete hh hi).setCb_keep rfl rfl rfl (fun h => ⟨h.1,h.2⟩) nextTimerID_fits
  next =>
    obtain rfl := Option.some.inj hs
    refine (SwtmrInv.created ?_).mpr (hpush.setCb_hole (Set.mem_insert i hole) hi ⟨h1,h2⟩ ⟨h3,h4⟩)
    rw [SwtmrState.setCb_same]
  next =>
    refine toStart_inv (hset _) hh hi ?_ hcurr hs
    rw [SwtmrState.setCb_same]
    exact hstart

namespace SwtmrState

/-- The timers that the CPUs have taken off their time lists. -/
def taken (s : SwtmrState) : Set Nat := {i | ∃ c t, s.waking c = some (i,t)}

/-- The ID is that of a timer in its block. -/
def Names (s : SwtmrState) (swtmrID : Nat) : Prop :=
  (s.cb (swtmrID % LOSCFG_BASE_CORE_SWTMR_LIMIT)).usTimerID = swtmrID ∧
    (s.cb (swtmrID % LOSCFG_BASE_CORE_SWTMR_LIMIT)).ucState ≠ .unused

/-- No scan is at the timer with the ID. -/
def Exclusive (s : SwtmrState) (swtmrID : Nat) : Prop := s.Names swtmrID → swtmrID % LOSCFG_BASE_CORE_SWTMR_LIMIT ∉ s.taken

theorem losSwtmrDelete_fail (h : ¬ s.Names swtmrID) : (s.losSwtmrDelete swtmrID).1 = s ∧ ∃ e, (s.losSwtmrDelete swtmrID).2 = .error e := by
  rw [losSwtmrDelete]
  split_ifs with h1 h2
  · exact ⟨rfl,_,rfl⟩
  · exact ⟨rfl,_,rfl⟩
  · split
    next => exact ⟨rfl,_,rfl⟩
    next hs => exact absurd ⟨not_not.mp h2,by simp [hs]⟩ h
    next hs => exact absurd ⟨not_not.mp h2,by simp [hs]⟩ h

private theorem losSwtmrStart_fail (cfg : SwtmrConfig) (startTime currTime : Nat) (h : ¬ s.Names swtmrID) :
    ∃ e, s.losSwtmrStart cfg startTime currTime swtmrID = some (s,.error e) := by
  rw [losSwtmrStart]
  split_ifs with h1 h2
  · exact ⟨_,rfl⟩
  · exact ⟨_,rfl⟩
  · split
    next => exact ⟨_,rfl⟩
    next hs => exact absurd ⟨not_not.mp h2,by simp [hs]⟩ h
    next hs => exact absurd ⟨not_not.mp h2,by simp [hs]⟩ h

theorem losSwtmrDelete_ok (hinv : SwtmrInv hole s) (h : s.Names swtmrID) : ∃ deleted, s.losSwtmrDelete swtmrID = (deleted,.ok ()) ∧
    (deleted.cb (swtmrID % LOSCFG_BASE_CORE_SWTMR_LIMIT)).ucState = .unused := by
  have hlt := (hinv.ids _ (hinv.live _ h.2)).lt
  rw [h.1] at hlt
  rw [losSwtmrDelete, if_neg (not_le.mpr hlt), if_neg (not_not.mpr h.1)]
  split
  next hs => exact absurd hs h.2
  next => exact ⟨_,rfl,by rw [swtmrDelete_same]⟩
  next => exact ⟨_,rfl,by rw [swtmrDelete_same]⟩

theorem update_eq {α : Type} {f : Nat → α} {c d : Nat} {v y : α} (h : Function.update f c v d = y) : d = c ∧ v = y ∨ d ≠ c ∧ f d = y := by
  by_cases hdc : d = c
  · subst hdc
    exact .inl ⟨rfl,(Function.update_self ..).symm.trans h⟩
  · exact .inr ⟨hdc,(Function.update_of_ne hdc ..).symm.trans h⟩

/-- A CPU takes block i off its time list. -/
private theorem taken_take {c t : Nat} (h : s.waking c = none) :
    { s' with waking := Function.update s.waking c (some (i,t)) }.taken = insert i s.taken := by
  ext j
  constructor
  · rintro ⟨d,u,hd⟩
    obtain ⟨-,he⟩ | ⟨-,hd⟩ := update_eq hd
    · obtain ⟨rfl,-⟩ := Prod.mk.inj (Option.some.inj he)
      exact Set.mem_insert ..
    · exact Set.mem_insert_of_mem i ⟨d,u,hd⟩
  · intro hj
    rcases Set.mem_insert_iff.mp hj with rfl | ⟨d,u,hd⟩
    · exact ⟨c,t,Function.update_self ..⟩
    · have hdc : d ≠ c := by
        rintro rfl
        exact absurd (h.symm.trans hd) nofun
      exact ⟨d,u,(Function.update_of_ne hdc ..).trans hd⟩

/-- A CPU is done with block i. -/
theorem taken_done (s' : SwtmrState) {c t : Nat} (h : s.waking c = some (i,t)) (hapart : ∀ d u, s.waking d = some (i,u) → d = c) :
    insert i { s' with waking := Function.update s.waking c none }.taken = s.taken ∧
      i ∉ { s' with waking := Function.update s.waking c none }.taken := by
  refine ⟨?_,?_⟩
  · ext j
    constructor
    · intro hj
      rcases Set.mem_insert_iff.mp hj with rfl | ⟨d,u,hd⟩
      · exact ⟨c,t,h⟩
      · obtain ⟨-,he⟩ | ⟨-,hd⟩ := update_eq hd
        · exact absurd he nofun
        · exact ⟨d,u,hd⟩
    · rintro ⟨d,u,hd⟩
      by_cases hdc : d = c
      · subst hdc
        obtain ⟨rfl,-⟩ := Prod.mk.inj (Option.some.inj (h.symm.trans hd))
        exact Set.mem_insert ..
      · exact Set.mem_insert_of_mem i ⟨d,u,(Function.update_of_ne hdc ..).trans hd⟩
  · rintro ⟨d,u,hd⟩
    obtain ⟨-,he⟩ | ⟨hdc,hd⟩ := update_eq hd
    · exact absurd he nofun
    · exact hdc (hapart d u hd)

end SwtmrState

/-- A block that a CPU has taken off its time list is still a timer, and is on no list. -/
structure WakeInv (cfg : SwtmrConfig) (s : SwtmrState) : Prop where
  swtmr : SwtmrInv s.taken s
  live : ∀ i, i ∈ s.taken → (s.cb i).ucState ≠ .unused ∧ (s.cb i).responseTime = OS_SORT_LINK_INVALID_TIME
  time : ∀ c i t, s.waking c = some (i,t) → ClockFits cfg t
  apart : ∀ c d i t u, s.waking c = some (i,t) → s.waking d = some (i,u) → c = d

namespace WakeInv

theorem waking (h : WakeInv cfg s) (hw : s'.waking = s.waking) (hinv : SwtmrInv s.taken s')
    (hlive : ∀ i, i ∈ s.taken → (s'.cb i).ucState ≠ .unused ∧ (s'.cb i).responseTime = OS_SORT_LINK_INVALID_TIME) : WakeInv cfg s' := by
  have htaken : s'.taken = s.taken := by rw [SwtmrState.taken, SwtmrState.taken, hw]
  refine ⟨htaken ▸ hinv,htaken ▸ hlive,?_,?_⟩
  · rw [hw]
    exact h.time
  · rw [hw]
    exact h.apart

/-- An operation on a block that no scan is at. -/
theorem kept (h : WakeInv cfg s) (hk : Kept i s s') (hi : i ∉ s.taken) (hinv : SwtmrInv s.taken s') : WakeInv cfg s' := by
  refine h.waking hk.waking hinv fun j hj => ?_
  rw [hk.other j fun he => hi (he ▸ hj)]
  exact h.live j hj

theorem create (h : WakeInv cfg s) (owner : Nat) {interval : Nat} (hlt : interval < 2 ^ 32) (mode : SwtmrMode) (handler : Nat)
    (swtmrID : Bool) (arg : Nat) : WakeInv cfg (s.losSwtmrCreate owner interval mode handler swtmrID arg).1 := by
  have hinv := create_inv h.swtmr owner hlt mode handler swtmrID arg
  rw [SwtmrState.losSwtmrCreate] at hinv ⊢
  split_ifs at hinv ⊢
  · exact h
  · exact h
  · exact h
  · exact h
  · split at hinv
    next => exact h
    next i l hfree =>
      obtain ⟨hh,-,-⟩ := (h.swtmr.free i).mp (hfree ▸ List.mem_cons_self)
      refine h.waking rfl hinv fun j hj => ?_
      have hji : j ≠ i := fun he => hh (he ▸ hj)
      rw [SwtmrState.setCb_other hji]
      exact h.live j hj

theorem start (h : WakeInv cfg s) (hh : s.Exclusive swtmrID) (hstart : ClockFits cfg startTime) (hcurr : ClockFits cfg currTime)
    {r : Except SwtmrErrno Unit} (hs : s.losSwtmrStart cfg startTime currTime swtmrID = some (s',r)) : WakeInv cfg s' := by
  by_cases hn : s.Names swtmrID
  · exact h.kept (Kept.losSwtmrStart hs) (hh hn) (losStart_inv h.swtmr hstart hcurr (hh hn) hs)
  · obtain ⟨e,he⟩ := SwtmrState.losSwtmrStart_fail cfg startTime currTime hn
    rw [he] at hs
    obtain ⟨rfl,-⟩ := Prod.mk.inj (Option.some.inj hs)
    exact h

theorem delete (h : WakeInv cfg s) (hh : s.Exclusive swtmrID) : WakeInv cfg (s.losSwtmrDelete swtmrID).1 := by
  by_cases hn : s.Names swtmrID
  · exact h.kept (Kept.losSwtmrDelete s swtmrID) (hh hn) (losDelete_inv h.swtmr (hh hn))
  · rw [(SwtmrState.losSwtmrDelete_fail hn).1]
    exact h

/-- LOS_SwtmrStop may also stop a timer that is on no list. -/
theorem stop (h : WakeInv cfg s) (swtmrID : Nat) : WakeInv cfg (s.losSwtmrStop swtmrID).1 := by
  have hlt := Nat.mod_lt swtmrID (by decide : LOSCFG_BASE_CORE_SWTMR_LIMIT > 0)
  by_cases hh : swtmrID % LOSCFG_BASE_CORE_SWTMR_LIMIT ∈ s.taken
  · obtain ⟨hlive,htime⟩ := h.live _ hh
    obtain ⟨h1,h2⟩ := h.swtmr.ticks (swtmrID % LOSCFG_BASE_CORE_SWTMR_LIMIT)
    obtain ⟨h3,h4⟩ := h.swtmr.ids _ hlt
    rw [SwtmrState.losSwtmrStop]
    generalize swtmrID % LOSCFG_BASE_CORE_SWTMR_LIMIT = i at *
    split_ifs
    · exact h
    · exact h
    · split
      next => exact h
      next => exact h
      next hs =>
        have hstop : s.swtmrStop i = s.setCb i { s.cb i with ucState := .created, uwOverrun := 0 } := by
          rw [SwtmrState.swtmrStop, SwtmrState.deSwtmrFromTimeList, SwtmrState.setCb_same, if_neg (not_not.mpr htime)]
        simp only [hstop]
        refine h.waking rfl (h.swtmr.setCb_hole hh hlt ⟨h1,h2⟩ ⟨h3,h4⟩) fun j hj => ?_
        by_cases hji : j = i
        · rw [hji, SwtmrState.setCb_same]
          exact ⟨by simp,htime⟩
        · rw [SwtmrState.setCb_other hji]
          exact h.live j hj
  · exact h.kept (Kept.losSwtmrStop s swtmrID) hh (losStop_inv h.swtmr hh)

theorem scanTake {cpuid scanTime : Nat} (h : WakeInv cfg s) (hpre : s.waking cpuid = none) (hok : ClockFits cfg scanTime) :
    WakeInv cfg (s.scanTake cpuid scanTime) := by
  rw [SwtmrState.scanTake]
  split
  next => exact h
  next i rest hlink =>
  split_ifs with hdue
  · obtain ⟨hh,hi,hcpu⟩ := (h.swtmr.link cpuid i).mp (by rw [hlink]; exact List.mem_cons_self)
    have hinv := h.swtmr.deleteNode hh hi
    rw [hcpu] at hinv
    refine ⟨?_,fun j hj => ?_,fun d j t hd => ?_,fun d e j t u hd he => ?_⟩
    · rw [SwtmrState.taken_take hpre]
      exact hinv.waking _
    · rw [SwtmrState.taken_take hpre] at hj
      by_cases hji : j = i
      · subst hji
        simp [hi]
      · simp only [SwtmrState.osDeleteNodeSortLink_other hji]
        exact h.live j (Set.mem_of_mem_insert_of_ne hj hji)
    · obtain ⟨-,he⟩ | ⟨-,hd⟩ := SwtmrState.update_eq hd
      · obtain ⟨rfl,rfl⟩ := Prod.mk.inj (Option.some.inj he)
        exact lt_of_le_of_lt (Nat.add_le_add_right hdue _) hok
      · exact h.time d j t hd
    · obtain ⟨rfl,hj⟩ | ⟨-,hd'⟩ := SwtmrState.update_eq hd
      · obtain ⟨rfl,-⟩ | ⟨-,he'⟩ := SwtmrState.update_eq he
        · rfl
        · obtain ⟨rfl,-⟩ := Prod.mk.inj (Option.some.inj hj)
          exact absurd ⟨e,u,he'⟩ hh
      · obtain ⟨-,hj⟩ | ⟨-,he'⟩ := SwtmrState.update_eq he
        · obtain ⟨rfl,-⟩ := Prod.mk.inj (Option.some.inj hj)
          exact absurd ⟨d,t,hd'⟩ hh
        · exact h.apart d e j t u hd' he'
  · exact h

theorem scanWake {cpuid : Nat} (h : WakeInv cfg s) (hok : ClockFits cfg currTime) (hs : s.scanWake cfg cpuid currTime = some s') :
    WakeInv cfg s' := by
  rw [SwtmrState.scanWake] at hs
  split at hs
  next =>
    obtain rfl := Option.some.inj hs
    exact h
  next i startTime hwaking =>
    obtain ⟨woken,hwoken,rfl⟩ := Option.map_eq_some_iff.mp hs
    have hi : i ∈ s.taken := ⟨cpuid,startTime,hwaking⟩
    obtain ⟨hlive,-⟩ := h.live i hi
    obtain ⟨htaken,hnot⟩ := SwtmrState.taken_done woken hwaking fun d u hd => h.apart d cpuid i u startTime hd hwaking
    have hk := Kept.swtmrWake hlive hwoken
    have hw : woken.waking = s.waking := hk.waking
    rw [← hw] at htaken hnot
    have hinv := h.swtmr
    rw [← htaken] at hinv
    refine ⟨(wake_inv hinv hnot (h.swtmr.live i hlive) (h.time cpuid i startTime hwaking) hok hwoken).waking _,fun j hj => ?_,
      fun d j t hd => ?_,fun d e j t u hd he => ?_⟩
    · have hji : j ≠ i := fun he => hnot (he ▸ hj)
      simp only [hk.other j hji]
      exact h.live j (htaken ▸ Set.mem_insert_of_mem i hj)
    · obtain ⟨-,he⟩ | ⟨-,hd⟩ := SwtmrState.update_eq hd
      · exact absurd he nofun
      · exact h.time d j t (hw ▸ hd)
    · obtain ⟨-,hd⟩ | ⟨-,hd⟩ := SwtmrState.update_eq hd
      · exact absurd hd nofun
      · obtain ⟨-,he⟩ | ⟨-,he⟩ := SwtmrState.update_eq he
        · exact absurd he nofun
        · exact h.apart d e j t u (hw ▸ hd) (hw ▸ he)

end WakeInv

/-- What the loop of OsSwtmrRecycle does with a block. -/
def recycleStep (ownerID : Nat) (s : SwtmrState) (index : Nat) : SwtmrState :=
  if (s.cb index).uwOwnerPid = ownerID then (s.losSwtmrDelete index).1 else s

theorem osSwtmrRecycle_eq (s : SwtmrState) (ownerID : Nat) :
    s.osSwtmrRecycle ownerID = (List.range LOSCFG_BASE_CORE_SWTMR_LIMIT).foldl (recycleStep ownerID) s := rfl

private theorem recycleStep_kept (ownerID : Nat) (s : SwtmrState) (index : Nat) :
    Kept (index % LOSCFG_BASE_CORE_SWTMR_LIMIT) s (recycleStep ownerID s index) := by
  rw [recycleStep]
  split_ifs
  · exact Kept.losSwtmrDelete s index
  · exact Kept.refl _ s

theorem recycle_waking (ownerID : Nat) (s : SwtmrState) : (s.osSwtmrRecycle ownerID).waking = s.waking := by
  rw [osSwtmrRecycle_eq]
  generalize List.range LOSCFG_BASE_CORE_SWTMR_LIMIT = l
  induction l generalizing s with
  | nil => rfl
  | cons j l ih => exact (ih _).trans (recycleStep_kept ownerID s j).waking

/-- The process exits while no scan is at one of its timers. -/
theorem WakeInv.recycle {ownerID : Nat} (h : WakeInv cfg s)
    (hok : ∀ index < LOSCFG_BASE_CORE_SWTMR_LIMIT, (s.cb index).uwOwnerPid = ownerID → s.Exclusive index) :
    WakeInv cfg (s.osSwtmrRecycle ownerID) := by
  have hfold : ∀ (l : List Nat) (s : SwtmrState), l.Nodup → (∀ j ∈ l, j < LOSCFG_BASE_CORE_SWTMR_LIMIT) → WakeInv cfg s →
      (∀ j ∈ l, (s.cb j).uwOwnerPid = ownerID → s.Exclusive j) → WakeInv cfg (l.foldl (recycleStep ownerID) s) := by
    intro l
    induction l with
    | nil => exact fun _ _ _ h _ => h
    | cons j l ih =>
      intro s hnodup hl h hok
      obtain ⟨hj,hnodup⟩ := List.nodup_cons.mp hnodup
      have hmod (k : Nat) (hk : k ∈ j :: l) : k % LOSCFG_BASE_CORE_SWTMR_LIMIT = k := Nat.mod_eq_of_lt (hl k hk)
      have hk := recycleStep_kept ownerID s j
      refine ih _ hnodup (fun k hk => hl k (List.mem_cons_of_mem j hk)) ?_ fun k hkl hown => ?_
      · rw [recycleStep]
        split_ifs with hown
        · exact h.delete (hok j List.mem_cons_self hown)
        · exact h
      · have hkj : k ≠ j % LOSCFG_BASE_CORE_SWTMR_LIMIT := by
          rw [hmod j List.mem_cons_self]
          rintro rfl
          exact hj hkl
        have hexcl := hok k (List.mem_cons_of_mem j hkl) (by rwa [← hk.other k hkj])
        rw [SwtmrState.Exclusive, SwtmrState.Names, SwtmrState.taken, hmod k (List.mem_cons_of_mem j hkl)] at hexcl ⊢
        rwa [hk.other k hkj, hk.waking]
  rw [osSwtmrRecycle_eq]
  exact hfold _ s List.nodup_range (fun j hj => List.mem_range.mp hj) h fun j hj => hok j (List.mem_range.mp hj)

/-- The calls, and the two halves of a round of ScanSwtmrTimeList on a CPU. -/
inductive SwtmrCall where
  | create (owner interval : Nat) (mode : SwtmrMode) (handler : Nat) (swtmrID : Bool) (arg : Nat)
  | start (startTime currTime swtmrID : Nat)
  | stop (swtmrID : Nat)
  | delete (swtmrID : Nat)
  | scanTake (cpuid scanTime : Nat)
  | scanWake (cpuid currTime : Nat)
  | recycle (ownerID : Nat)

/-- What a call does; none where it divides by zero. -/
def SwtmrCall.swtmrRun (cfg : SwtmrConfig) (s : SwtmrState) : SwtmrCall → Option SwtmrState
  | .create owner interval mode handler swtmrID arg => some (s.losSwtmrCreate owner interval mode handler swtmrID arg).1
  | .start startTime currTime swtmrID => (s.losSwtmrStart cfg startTime currTime swtmrID).map (·.1)
  | .stop swtmrID => some (s.losSwtmrStop swtmrID).1
  | .delete swtmrID => some (s.losSwtmrDelete swtmrID).1
  | .scanTake cpuid scanTime => some (s.scanTake cpuid scanTime)
  | .scanWake cpuid currTime => s.scanWake cfg cpuid currTime
  | .recycle ownerID => some (s.osSwtmrRecycle ownerID)

/-- An interval is a UINT32, and SwtmrTask of a CPU wakes a timer before it takes the next. -/
def SwtmrCall.Pre (s : SwtmrState) : SwtmrCall → Prop
  | .create _ interval _ _ _ _ => interval < 2 ^ 32
  | .scanTake cpuid _ => s.waking cpuid = none
  | _ => True

/-- The times that a call reads fit, and no call starts or deletes a timer between its leaving the time list and SwtmrWake. -/
def SwtmrCall.Ok (cfg : SwtmrConfig) (s : SwtmrState) : SwtmrCall → Prop
  | .start startTime currTime swtmrID => ClockFits cfg startTime ∧ ClockFits cfg currTime ∧ s.Exclusive swtmrID
  | .delete swtmrID => s.Exclusive swtmrID
  | .scanTake _ scanTime => ClockFits cfg scanTime
  | .scanWake _ currTime => ClockFits cfg currTime
  | .recycle ownerID => ∀ index < LOSCFG_BASE_CORE_SWTMR_LIMIT, (s.cb index).uwOwnerPid = ownerID → s.Exclusive index
  | _ => True

/-- A call that divides by zero does not come back, and nothing goes on from it. -/
def swtmrSystem (cfg : SwtmrConfig) : Run.System SwtmrState SwtmrCall where
  init s := s = swtmrBaseInit
  pre s c := c.Pre s
  run s c := (c.swtmrRun cfg s).getD s

/-- Every call keeps each block on the list that it belongs on. -/
private theorem swtmrRun_inv (h : WakeInv cfg s) (c : SwtmrCall) (hpre : c.Pre s) (hok : c.Ok cfg s) (hs : c.swtmrRun cfg s = some s') :
    WakeInv cfg s' := by
  cases c with
  | create owner interval mode handler swtmrID arg => exact Option.some.inj hs ▸ h.create owner hpre mode handler swtmrID arg
  | start =>
    obtain ⟨⟨x,r⟩,hx,rfl⟩ := Option.map_eq_some_iff.mp hs
    exact h.start hok.2.2 hok.1 hok.2.1 hx
  | stop swtmrID => exact Option.some.inj hs ▸ h.stop swtmrID
  | delete => exact Option.some.inj hs ▸ h.delete hok
  | scanTake => exact Option.some.inj hs ▸ h.scanTake hpre hok
  | scanWake => exact h.scanWake hok hs
  | recycle => exact Option.some.inj hs ▸ h.recycle hok

theorem init_wake : WakeInv cfg swtmrBaseInit := by
  have htaken : swtmrBaseInit.taken = ∅ := by
    ext i
    exact ⟨fun ⟨c,t,hc⟩ => absurd hc nofun,False.elim⟩
  refine ⟨htaken ▸ init_inv,fun i hi => ?_,nofun,nofun⟩
  rw [htaken] at hi
  exact hi.elim

theorem swtmr_inv (h : Run.Reachable (swtmrSystem cfg) (fun s c => c.Ok cfg s) s) : WakeInv cfg s := by
  refine h.invariant (fun s hs => hs ▸ init_wake) fun s c hs hpre hok => ?_
  change WakeInv cfg ((c.swtmrRun cfg s).getD s)
  cases hrun : c.swtmrRun cfg s with
  | none => exact hs
  | some s' => exact swtmrRun_inv hs c hpre hok hrun

/-- One CPU with 100 cycles a tick. -/
def config : SwtmrConfig := ⟨1,100,by decide,by decide⟩

private theorem create_first {owner interval handler arg : Nat} (hf : s.freeList = i :: l) (h0 : interval ≠ 0) (h1 : handler ≠ 0) :
    (s.losSwtmrCreate owner interval .once handler true arg).1 =
      { s with freeList := l }.setCb i (SwtmrState.createdCb (s.cb i) owner interval .once handler arg) := by
  rw [SwtmrState.losSwtmrCreate, if_neg h0, if_neg (by simp), if_neg h1, if_neg (by decide), hf]

theorem init_freeList : ∃ l, 0 ∉ 1 :: l ∧ swtmrBaseInit.freeList = 0 :: 1 :: l := by
  refine ⟨List.range' 2 1022,by simp,?_⟩
  have hlimit : LOSCFG_BASE_CORE_SWTMR_LIMIT = 1022 + 1 + 1 := rfl
  simp only [swtmrBaseInit]
  rw [List.range_eq_range', hlimit, List.range'_succ, List.range'_succ]

/-- A process creates a timer in a block that is first on the free list. -/
theorem reachable_created (h : Run.Reachable (swtmrSystem config) (fun s c => c.Ok config s) s) (hf : s.freeList = i :: l)
    (owner interval : Nat) (h0 : interval ≠ 0) (h1 : interval < 2 ^ 32) :
    Run.Reachable (swtmrSystem config) (fun s c => c.Ok config s)
      ({ s with freeList := l }.setCb i (SwtmrState.createdCb (s.cb i) owner interval .once 1 0)) := by
  have hcall := h.call (.create owner interval .once 1 true 0) h1 trivial
  have hrun : (swtmrSystem config).run s (.create owner interval .once 1 true 0) =
      { s with freeList := l }.setCb i (SwtmrState.createdCb (s.cb i) owner interval .once 1 0) := create_first hf h0 (by decide)
  rwa [hrun] at hcall

/-- A process starts the timer that it has created in a block, at time 0. -/
theorem reachable_start {owner interval : Nat} (h : Run.Reachable (swtmrSystem config) (fun s c => c.Ok config s) s)
    (hw : s.waking = fun _ => none) (hi : i < LOSCFG_BASE_CORE_SWTMR_LIMIT) (h1 : interval < 2 ^ 32)
    (hcb : s.cb i = ⟨OS_SORT_LINK_INVALID_TIME,0,.created,.once,i,0,interval,interval,0,1,owner,0⟩) :
    Run.Reachable (swtmrSystem config) (fun s c => c.Ok config s)
      ((s.setCb i (s.cb i)).addSwtmr2TimeList i ⟨interval * 100,0,.ticking,.once,i,0,interval,interval,0,1,owner,0⟩ 0) := by
  have hexclusive : s.Exclusive i := by
    rintro - ⟨c,t,hc⟩
    rw [hw] at hc
    exact absurd hc nofun
  have hcall := h.call (.start 0 0 i) trivial ⟨by decide,by decide,hexclusive⟩
  have hid : ¬ OS_SWTMR_MAX_TIMERID ≤ i := not_le.mpr (hi.trans_le limit_le_max)
  have hmod : interval * 100 % 18446744073709551616 = interval * 100 := Nat.mod_eq_of_lt (by omega)
  have hrun : (swtmrSystem config).run s (.start 0 0 i) =
      (s.setCb i (s.cb i)).addSwtmr2TimeList i ⟨interval * 100,0,.ticking,.once,i,0,interval,interval,0,1,owner,0⟩ 0 := by
    simp [swtmrSystem, SwtmrCall.swtmrRun, SwtmrState.losSwtmrStart, hid, Nat.mod_eq_of_lt hi, hcb, SwtmrState.swtmrStart,
      SwtmrState.findIdleSwtmrRunqueue, config, SwtmrState.swtmrToStart, startResponse, startTicks, hmod]
  rwa [hrun] at hcall

/-- Process 7 has started its one timer, in block 0. -/
theorem reachable_started (interval : Nat) (h0 : interval ≠ 0) (h1 : interval < 2 ^ 32) :
    ∃ s l, Run.Reachable (swtmrSystem config) (fun s c => c.Ok config s) s ∧ s.waking = (fun _ => none) ∧ 0 ∉ s.freeList ∧
      s.freeList = 1 :: l ∧ (s.runqueue 0).swtmrSortLink.sortLink = [0] ∧
        s.cb 0 = ⟨interval * 100,0,.ticking,.once,0,0,interval,interval,0,1,7,0⟩ ∧ ∀ i, i ≠ 0 → s.cb i = swtmrBaseInit.cb i := by
  obtain ⟨l,hl,hfirst⟩ := init_freeList
  have hcreated := reachable_created (.init rfl) hfirst 7 interval h0 h1
  generalize hx : SwtmrState.setCb _ 0 _ = x at hcreated
  have hcb : x.cb 0 = ⟨OS_SORT_LINK_INVALID_TIME,0,.created,.once,0,0,interval,interval,0,1,7,0⟩ := hx ▸ SwtmrState.setCb_same
  have hother (i : Nat) (hi : i ≠ 0) : x.cb i = swtmrBaseInit.cb i := hx ▸ SwtmrState.setCb_other hi
  have hrq (c : Nat) : x.runqueue c = ⟨⟨[],0⟩,[]⟩ := hx ▸ rfl
  have hfree : x.freeList = 1 :: l := hx ▸ rfl
  have hw : x.waking = fun _ => none := hx ▸ rfl
  refine ⟨_,l,reachable_start hcreated hw (by decide) h1 hcb,hw,hfree ▸ hl,hfree,?_,?_,fun i hi => ?_⟩
  · simp [SwtmrState.addSwtmr2TimeList, hrq, Sched.Timeout.addNode2SortLink]
  · simp [SwtmrState.addSwtmr2TimeList]
  · simp [SwtmrState.addSwtmr2TimeList, hi, hother]

end LiteOsKernel.Swtmr
