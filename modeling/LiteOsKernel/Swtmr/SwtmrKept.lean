import LiteOsKernel.Swtmr.SwtmrLists

/-! What an operation on one timer leaves as it was. -/
namespace LiteOsKernel.Swtmr

variable {cfg : SwtmrConfig} {s s' s'' : SwtmrState} {swtmr : SwtmrCtrl} {i c startTime currTime swtmrID : Nat}

private theorem SwtmrState.swtmrStop_state (s : SwtmrState) (i : Nat) : ((s.swtmrStop i).cb i).ucState = .created := by
  rw [swtmrStop, deSwtmrFromTimeList, setCb_same]
  split_ifs
  · rw [osDeleteNodeSortLink_same, setCb_same]
  · rw [setCb_same]

/-- What an operation on block i keeps: its handler, argument and owner, the other blocks, the handler queues, and the timers
that the CPUs have taken off their lists. -/
structure Kept (i : Nat) (s s' : SwtmrState) : Prop where
  handler : (s'.cb i).pfnHandler = (s.cb i).pfnHandler
  arg : (s'.cb i).uwArg = (s.cb i).uwArg
  live : (s'.cb i).ucState ≠ .unused → (s.cb i).ucState ≠ .unused ∧ (s'.cb i).uwOwnerPid = (s.cb i).uwOwnerPid
  other : ∀ j, j ≠ i → s'.cb j = s.cb j
  queue : ∀ c, (s'.runqueue c).swtmrHandlerQueue = (s.runqueue c).swtmrHandlerQueue
  waking : s'.waking = s.waking

namespace Kept

theorem refl (i : Nat) (s : SwtmrState) : Kept i s s := ⟨rfl,rfl,fun hs => ⟨hs,rfl⟩,fun _ _ => rfl,fun _ => rfl,rfl⟩

theorem trans (h : Kept i s s') (h' : Kept i s' s'') : Kept i s s'' := by
  refine ⟨h'.handler.trans h.handler,h'.arg.trans h.arg,fun hs => ?_,fun j hj => (h'.other j hj).trans (h.other j hj),
    fun c => (h'.queue c).trans (h.queue c),h'.waking.trans h.waking⟩
  obtain ⟨hs',howner'⟩ := h'.live hs
  obtain ⟨hs,howner⟩ := h.live hs'
  exact ⟨hs,howner'.trans howner⟩

theorem setCb (hhandler : swtmr.pfnHandler = (s.cb i).pfnHandler) (harg : swtmr.uwArg = (s.cb i).uwArg)
    (hlive : swtmr.ucState ≠ .unused → (s.cb i).ucState ≠ .unused ∧ swtmr.uwOwnerPid = (s.cb i).uwOwnerPid) :
    Kept i s (s.setCb i swtmr) := by
  refine ⟨?_,?_,?_,fun j hj => SwtmrState.setCb_other hj,fun c => rfl,rfl⟩
  · rwa [SwtmrState.setCb_same]
  · rwa [SwtmrState.setCb_same]
  · rwa [SwtmrState.setCb_same]

theorem setSortLink (i : Nat) (s : SwtmrState) (c : Nat) (link : Sched.Timeout.SortLinkAttribute) :
    Kept i s (s.setSortLink c link) := by
  refine ⟨rfl,rfl,fun hs => ⟨hs,rfl⟩,fun _ _ => rfl,fun d => ?_,rfl⟩
  by_cases hd : d = c
  · subst hd
    simp [SwtmrState.setSortLink]
  · rw [SwtmrState.setSortLink_other hd]

theorem osDeleteNodeSortLink (i : Nat) (s : SwtmrState) (c : Nat) : Kept i s (s.osDeleteNodeSortLink c i) := by
  have hset : Kept i s (s.setCb i { s.cb i with responseTime := OS_SORT_LINK_INVALID_TIME }) := setCb rfl rfl fun hs => ⟨hs,rfl⟩
  exact hset.trans (setSortLink i _ c _)

theorem swtmrStop (hs : (s.cb i).ucState ≠ .unused) : Kept i s (s.swtmrStop i) := by
  have hset : Kept i s (s.setCb i { s.cb i with ucState := .created, uwOverrun := 0 }) := setCb rfl rfl fun _ => ⟨hs,rfl⟩
  rw [SwtmrState.swtmrStop, SwtmrState.deSwtmrFromTimeList]
  split_ifs
  · exact hset.trans (osDeleteNodeSortLink i _ _)
  · exact hset

theorem swtmrDelete (i : Nat) (s : SwtmrState) : Kept i s (s.swtmrDelete i) := by
  have hset : Kept i { s with freeList := s.freeList ++ [i] } (s.swtmrDelete i) := setCb rfl rfl fun h => absurd rfl h
  exact ⟨hset.handler,hset.arg,hset.live,hset.other,hset.queue,hset.waking⟩

theorem startResponse {started : SwtmrCtrl} (h : startResponse cfg currTime swtmr = some started) :
    started.pfnHandler = swtmr.pfnHandler ∧ started.uwArg = swtmr.uwArg ∧ started.uwOwnerPid = swtmr.uwOwnerPid := by
  simp only [Swtmr.startResponse] at h
  split_ifs at h
  · obtain rfl := Option.some.inj h
    exact ⟨rfl,rfl,rfl⟩
  · obtain rfl := Option.some.inj h
    exact ⟨rfl,rfl,rfl⟩

theorem swtmrToStart (hs : (s.cb i).ucState ≠ .unused) (h : s.swtmrToStart cfg currTime i c = some s') : Kept i s s' := by
  obtain ⟨started,hstarted,rfl⟩ := Option.map_eq_some_iff.mp h
  obtain ⟨hhandler,harg,howner⟩ := startResponse hstarted
  have hset : Kept i s (s.setCb i { started with cpuid := c }) := setCb hhandler harg fun _ => ⟨hs,howner⟩
  exact hset.trans (setSortLink i _ c _)

theorem swtmrStart (hs : (s.cb i).ucState ≠ .unused) (h : s.swtmrStart cfg startTime currTime i = some s') : Kept i s s' := by
  have hset : Kept i s (s.setCb i { s.cb i with startTime := startTime }) := setCb rfl rfl fun hs => ⟨hs,rfl⟩
  refine hset.trans (swtmrToStart ?_ h)
  rwa [SwtmrState.setCb_same]

theorem losSwtmrStop (s : SwtmrState) (swtmrID : Nat) :
    Kept (swtmrID % LOSCFG_BASE_CORE_SWTMR_LIMIT) s (s.losSwtmrStop swtmrID).1 := by
  rw [SwtmrState.losSwtmrStop]
  split_ifs
  · exact refl _ s
  · exact refl _ s
  · split
    next => exact refl _ s
    next => exact refl _ s
    next hs => exact swtmrStop (by simp [hs])

theorem losSwtmrStart {r : Except SwtmrErrno Unit} (h : s.losSwtmrStart cfg startTime currTime swtmrID = some (s',r)) :
    Kept (swtmrID % LOSCFG_BASE_CORE_SWTMR_LIMIT) s s' := by
  rw [SwtmrState.losSwtmrStart] at h
  split_ifs at h
  · obtain ⟨rfl,-⟩ := Prod.mk.inj (Option.some.inj h)
    exact refl _ s
  · obtain ⟨rfl,-⟩ := Prod.mk.inj (Option.some.inj h)
    exact refl _ s
  · split at h
    next =>
      obtain ⟨rfl,-⟩ := Prod.mk.inj (Option.some.inj h)
      exact refl _ s
    next hs =>
      obtain ⟨x,hx,he⟩ := Option.map_eq_some_iff.mp h
      obtain ⟨rfl,-⟩ := Prod.mk.inj he
      have hstop := swtmrStop (by simp [hs] : (s.cb (swtmrID % LOSCFG_BASE_CORE_SWTMR_LIMIT)).ucState ≠ .unused)
      refine hstop.trans (swtmrStart ?_ hx)
      rw [SwtmrState.swtmrStop_state]
      decide
    next hs =>
      obtain ⟨x,hx,he⟩ := Option.map_eq_some_iff.mp h
      obtain ⟨rfl,-⟩ := Prod.mk.inj he
      exact swtmrStart (by simp [hs]) hx

theorem losSwtmrDelete (s : SwtmrState) (swtmrID : Nat) :
    Kept (swtmrID % LOSCFG_BASE_CORE_SWTMR_LIMIT) s (s.losSwtmrDelete swtmrID).1 := by
  rw [SwtmrState.losSwtmrDelete]
  split_ifs
  · exact refl _ s
  · exact refl _ s
  · split
    next => exact refl _ s
    next hs => exact (swtmrStop (by simp [hs])).trans (swtmrDelete _ _)
    next hs => exact swtmrDelete _ s

/-- SwtmrWake, from the state in which the item is on the queue. -/
theorem swtmrWake (hs : (s.cb i).ucState ≠ .unused) (h : s.swtmrWake cfg c startTime currTime i = some s') :
    Kept i (s.pushHandler c ⟨(s.cb i).pfnHandler,(s.cb i).uwArg⟩) s' := by
  rw [SwtmrState.swtmrWake] at h
  have hcb : (s.pushHandler c ⟨(s.cb i).pfnHandler,(s.cb i).uwArg⟩).cb i = s.cb i := rfl
  generalize s.pushHandler c ⟨(s.cb i).pfnHandler,(s.cb i).uwArg⟩ = x at h hcb ⊢
  rw [← hcb] at hs
  split at h
  next =>
    obtain rfl := Option.some.inj h
    exact (swtmrDelete i x).trans (setCb rfl rfl fun hs => ⟨hs,rfl⟩)
  next =>
    obtain rfl := Option.some.inj h
    exact setCb rfl rfl fun _ => ⟨hs,rfl⟩
  next =>
    have hset : Kept i x (x.setCb i
      { x.cb i with uwOverrun := ((x.cb i).uwOverrun + 1) % 2 ^ 32, startTime := startTime }) := setCb rfl rfl fun hs => ⟨hs,rfl⟩
    refine hset.trans (swtmrToStart ?_ h)
    rwa [SwtmrState.setCb_same]

end Kept

end LiteOsKernel.Swtmr
