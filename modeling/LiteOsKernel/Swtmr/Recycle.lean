import LiteOsKernel.Swtmr.SwtmrRun
import Mathlib.Logic.Relation

/-! What OsSwtmrRecycle leaves of the timers of a process that exits. -/
namespace LiteOsKernel.Swtmr

/-- A created or ticking timer of a process. -/
def Owned (s : SwtmrState) (ownerID i : Nat) : Prop := (s.cb i).uwOwnerPid = ownerID ∧ (s.cb i).ucState ≠ .unused

instance (s : SwtmrState) (ownerID i : Nat) : Decidable (Owned s ownerID i) := inferInstanceAs (Decidable (_ ∧ _))

/-- A CPU wakes the timer that it has taken off. -/
def Wakes (cfg : SwtmrConfig) (s s' : SwtmrState) : Prop := ∃ cpuid currTime, s.scanWake cfg cpuid currTime = some s'

/-- s' has no timer of the process left, also when the scans are done, and the timers of the others as they were. -/
structure RecycleLaw (cfg : SwtmrConfig) (s : SwtmrState) (ownerID : Nat) (s' : SwtmrState) : Prop where
  others : ∀ i, (s.cb i).uwOwnerPid ≠ ownerID → s'.cb i = s.cb i
  lists : ∀ c, (s'.runqueue c).swtmrSortLink.sortLink =
    (s.runqueue c).swtmrSortLink.sortLink.filter fun i => (s.cb i).uwOwnerPid ≠ ownerID
  released : ∀ x, Relation.ReflTransGen (Wakes cfg) s' x → ∀ i, ¬ Owned x ownerID i
  free : ∀ x, Relation.ReflTransGen (Wakes cfg) s' x →
    ∀ i, Owned s ownerID i → (x.cb i).ucState = .unused ∧ x.freeList.count i = 1

/-- The timers of the process have the ID that is the index of their block, and no scan is at one of them. -/
structure Recyclable (s : SwtmrState) (ownerID : Nat) : Prop where
  ids : ∀ i, Owned s ownerID i → (s.cb i).usTimerID = i
  quiet : ∀ i, Owned s ownerID i → i ∉ s.taken

variable {s s' : SwtmrState} {cfg : SwtmrConfig} {ownerID i j currTime : Nat} {l : List Nat} {hole : Set Nat}

private theorem index_lt_max (hi : i < LOSCFG_BASE_CORE_SWTMR_LIMIT) : i % LOSCFG_BASE_CORE_SWTMR_LIMIT = i ∧ ¬ OS_SWTMR_MAX_TIMERID ≤ i :=
  ⟨Nat.mod_eq_of_lt hi,fun h => absurd (hi.trans_le limit_le_max) h.not_gt⟩

/-- A block whose ID is another is left alone. -/
private theorem recycleStep_keeps (hj : j < LOSCFG_BASE_CORE_SWTMR_LIMIT)
    (hid : (s.cb i).usTimerID ≠ i) (ownerID : Nat) : (recycleStep ownerID s j).cb i = s.cb i := by
  obtain ⟨hmod,hmax⟩ := index_lt_max hj
  rw [recycleStep, SwtmrState.losSwtmrDelete, hmod, if_neg hmax]
  split_ifs with hown h2
  · rfl
  · have hne : i ≠ j := by
      rintro rfl
      exact h2 hid
    split
    next => rfl
    next =>
      rw [SwtmrState.swtmrDelete_other hne, SwtmrState.swtmrStop, SwtmrState.deSwtmrFromTimeList]
      split_ifs
      · rw [SwtmrState.osDeleteNodeSortLink_other hne, SwtmrState.setCb_other hne]
      · rw [SwtmrState.setCb_other hne]
    next => rw [SwtmrState.swtmrDelete_other hne]
  · rfl

private theorem recycle_keeps (hid : (s.cb i).usTimerID ≠ i)
    (hl : ∀ j ∈ l, j < LOSCFG_BASE_CORE_SWTMR_LIMIT) : (l.foldl (recycleStep ownerID) s).cb i = s.cb i := by
  induction l generalizing s with
  | nil => rfl
  | cons j l ih =>
    have hstep := recycleStep_keeps (hl j List.mem_cons_self) hid ownerID
    rw [List.foldl_cons, ih (by rwa [hstep]) fun k hk => hl k (List.mem_cons_of_mem j hk)]
    exact hstep

/-- A timer of the process with the right ID is deleted. -/
private theorem recycleStep_owned (h : SwtmrInv hole s) (hown : Owned s ownerID i) (hid : (s.cb i).usTimerID = i) (hh : i ∉ hole) :
    SwtmrInv hole (recycleStep ownerID s i) ∧ ((recycleStep ownerID s i).cb i).ucState = .unused ∧
      (∀ j, j ≠ i → (recycleStep ownerID s i).cb j = s.cb j) ∧ (recycleStep ownerID s i).freeList = s.freeList ++ [i] ∧
        ∀ c, ((recycleStep ownerID s i).runqueue c).swtmrSortLink.sortLink = (s.runqueue c).swtmrSortLink.sortLink.erase i := by
  obtain ⟨hmod,hmax⟩ := index_lt_max (h.live i hown.2)
  have hinv : SwtmrInv hole (recycleStep ownerID s i) := by
    rw [recycleStep, if_pos hown.1]
    exact losDelete_inv h (by rwa [hmod])
  refine ⟨hinv,?_⟩
  have hdelete : recycleStep ownerID s i = (s.losSwtmrDelete i).1 := if_pos hown.1
  rw [hdelete, SwtmrState.losSwtmrDelete, hmod, if_neg hmax, if_neg (not_not.mpr hid)]
  split
  next hs => exact absurd hs hown.2
  next hs =>
    obtain ⟨-,-,hother,hfree,hlink⟩ := stop_inv h hh hs
    refine ⟨by simp,fun j hj => ?_,by simp [hfree],hlink⟩
    rw [SwtmrState.swtmrDelete_other hj, hother j hj]
  next hs =>
    refine ⟨by simp,fun j hj => SwtmrState.swtmrDelete_other hj,rfl,fun c => (List.erase_of_not_mem fun hm => ?_).symm⟩
    exact absurd (hs.symm.trans ((h.link c i).mp hm).2.1) (by decide)

private theorem recycleStep_other (h : ¬ Owned s ownerID i) (hi : i < LOSCFG_BASE_CORE_SWTMR_LIMIT) : recycleStep ownerID s i = s := by
  obtain ⟨hmod,hmax⟩ := index_lt_max hi
  rw [recycleStep]
  split_ifs with hown
  · have hs : (s.cb i).ucState = .unused := by
      by_contra hs
      exact h ⟨hown,hs⟩
    rw [SwtmrState.losSwtmrDelete, hmod, if_neg hmax, hs]
    split_ifs
    · rfl
    · rfl
  · rfl

/-- The loop deletes the timers of the process among the blocks of l, in their order. -/
private theorem recycle_fold (h : SwtmrInv hole s) (hid : ∀ i, Owned s ownerID i → (s.cb i).usTimerID = i ∧ i ∉ hole) (hnodup : l.Nodup)
    (hl : ∀ j ∈ l, j < LOSCFG_BASE_CORE_SWTMR_LIMIT) :
    (∀ i, (¬ (i ∈ l ∧ Owned s ownerID i) → (l.foldl (recycleStep ownerID) s).cb i = s.cb i) ∧
      (i ∈ l ∧ Owned s ownerID i → ((l.foldl (recycleStep ownerID) s).cb i).ucState = .unused)) ∧
    (l.foldl (recycleStep ownerID) s).freeList = s.freeList ++ l.filter (Owned s ownerID ·) ∧
    ∀ c, ((l.foldl (recycleStep ownerID) s).runqueue c).swtmrSortLink.sortLink =
      (s.runqueue c).swtmrSortLink.sortLink.filter fun i => ¬ (i ∈ l ∧ Owned s ownerID i) := by
  induction l generalizing s with
  | nil => simp
  | cons j l ih =>
    obtain ⟨hj,hnodup⟩ := List.nodup_cons.mp hnodup
    have hjlt := hl j List.mem_cons_self
    have hl' : ∀ k ∈ l, k < LOSCFG_BASE_CORE_SWTMR_LIMIT := fun k hk => hl k (List.mem_cons_of_mem j hk)
    rw [List.foldl_cons]
    by_cases hown : Owned s ownerID j
    · obtain ⟨hinv,hunused,hcb,hfree,hlink⟩ := recycleStep_owned h hown (hid j hown).1 (hid j hown).2
      have howned {i : Nat} (hi : i ≠ j) : Owned (recycleStep ownerID s j) ownerID i ↔ Owned s ownerID i := by
        rw [Owned, Owned, hcb i hi]
      have hid' (i : Nat) (hi : Owned (recycleStep ownerID s j) ownerID i) :
          ((recycleStep ownerID s j).cb i).usTimerID = i ∧ i ∉ hole := by
        have hij : i ≠ j := by
          rintro rfl
          exact hi.2 hunused
        rw [hcb i hij]
        exact hid i ((howned hij).mp hi)
      obtain ⟨hcb',hfree',hlink'⟩ := ih hinv hid' hnodup hl'
      refine ⟨fun i => ?_,?_,fun c => ?_⟩
      · by_cases hij : i = j
        · subst hij
          refine ⟨fun hn => absurd ⟨List.mem_cons_self,hown⟩ hn,fun _ => ?_⟩
          rw [(hcb' i).1 fun hm => hj hm.1, hunused]
        · rw [← hcb i hij, List.mem_cons, or_iff_right hij, ← howned hij]
          exact hcb' i
      · rw [hfree', hfree, List.append_assoc, List.filter_cons_of_pos (by simpa using hown), List.singleton_append]
        refine congrArg (s.freeList ++ j :: ·) (List.filter_congr fun i hi => ?_)
        rw [decide_eq_decide]
        exact howned fun he => hj (he ▸ hi)
      · rw [hlink', hlink, (h.linkNodup c).erase_eq_filter, List.filter_filter]
        refine List.filter_congr fun i _ => ?_
        by_cases hij : i = j
        · subst hij
          simp [hown]
        · simp [hij, howned hij]
    · rw [recycleStep_other hown hjlt]
      obtain ⟨hcb',hfree',hlink'⟩ := ih h hid hnodup hl'
      have hmem (i : Nat) : i ∈ j :: l ∧ Owned s ownerID i ↔ i ∈ l ∧ Owned s ownerID i := by
        refine and_congr_left fun hi => ?_
        rw [List.mem_cons, or_iff_right]
        rintro rfl
        exact hown hi
      refine ⟨fun i => ?_,?_,fun c => ?_⟩
      · rw [hmem]
        exact hcb' i
      · rw [hfree', List.filter_cons_of_neg (by simpa using hown)]
      · rw [hlink']
        exact List.filter_congr fun i _ => decide_eq_decide.mpr (not_congr (hmem i).symm)

/-- What SwtmrWake of block i leaves of the other blocks. -/
private theorem wake_frame {c startTime : Nat} (hs : (s.cb i).ucState ≠ .unused) (h : s.swtmrWake cfg c startTime currTime i = some s') :
    Kept i (s.pushHandler c ⟨(s.cb i).pfnHandler,(s.cb i).uwArg⟩) s' ∧ (s'.freeList = s.freeList ∨ s'.freeList = s.freeList ++ [i]) := by
  refine ⟨Kept.swtmrWake hs h,?_⟩
  rw [SwtmrState.swtmrWake] at h
  split at h
  next =>
    obtain rfl := Option.some.inj h
    exact .inr rfl
  next =>
    obtain rfl := Option.some.inj h
    exact .inl rfl
  next =>
    obtain ⟨started,-,rfl⟩ := Option.map_eq_some_iff.mp h
    exact .inl rfl

/-- The timers that the scans are at live, and none of them is of the process or in a block that it has given back. -/
structure ScansElsewhere (s : SwtmrState) (ownerID : Nat) (given : Nat → Prop) : Prop where
  live : ∀ i, i ∈ s.taken → (s.cb i).ucState ≠ .unused ∧ (s.cb i).uwOwnerPid ≠ ownerID ∧ ¬ given i
  apart : ∀ c d i t u, s.waking c = some (i,t) → s.waking d = some (i,u) → c = d

/-- So they wake without touching these. -/
theorem ScansElsewhere.wakes {given : Nat → Prop} (h : ScansElsewhere s ownerID given) {x : SwtmrState}
    (hx : Relation.ReflTransGen (Wakes cfg) s x) : ScansElsewhere x ownerID given ∧ (∀ i, Owned x ownerID i → Owned s ownerID i) ∧
      ∀ i, given i → (x.cb i).ucState = (s.cb i).ucState ∧ x.freeList.count i = s.freeList.count i := by
  induction hx with
  | refl => exact ⟨h,fun _ => id,fun _ _ => ⟨rfl,rfl⟩⟩
  | @tail x y _ hwake ih =>
    obtain ⟨hx,hown,hgiven⟩ := ih
    obtain ⟨c,currTime,hwake⟩ := hwake
    rw [SwtmrState.scanWake] at hwake
    split at hwake
    next =>
      obtain rfl := Option.some.inj hwake
      exact ⟨hx,hown,hgiven⟩
    next i startTime hwaking =>
      obtain ⟨woken,hwoken,rfl⟩ := Option.map_eq_some_iff.mp hwake
      obtain ⟨hlive,hne,hnot⟩ := hx.live i ⟨c,startTime,hwaking⟩
      obtain ⟨hk,hfree⟩ := wake_frame hlive hwoken
      have hw : woken.waking = x.waking := hk.waking
      obtain ⟨htaken,hgone⟩ := SwtmrState.taken_done woken hwaking fun d u hd => hx.apart d c i u startTime hd hwaking
      rw [← hw] at htaken hgone
      refine ⟨⟨fun j hj => ?_,fun d e j t u hd he => ?_⟩,fun j hj => ?_,fun j hj => ?_⟩
      · have hji : j ≠ i := fun he => hgone (he ▸ hj)
        simp only [hk.other j hji]
        exact hx.live j (htaken ▸ Set.mem_insert_of_mem i hj)
      · obtain ⟨-,hd⟩ | ⟨-,hd⟩ := SwtmrState.update_eq hd
        · exact absurd hd (Option.some_ne_none _).symm
        · obtain ⟨-,he⟩ | ⟨-,he⟩ := SwtmrState.update_eq he
          · exact absurd he (Option.some_ne_none _).symm
          · exact hx.apart d e j t u (hw ▸ hd) (hw ▸ he)
      · by_cases hji : j = i
        · subst hji
          exact absurd ((hk.live hj.2).2.symm.trans hj.1) hne
        · refine hown j ?_
          rw [Owned, ← show woken.cb j = x.cb j from hk.other j hji]
          exact hj
      · have hji : j ≠ i := by
          rintro rfl
          exact hnot hj
        obtain ⟨hstate,hcount⟩ := hgiven j hj
        refine ⟨(congrArg SwtmrCtrl.ucState (hk.other j hji)).trans hstate,Eq.trans ?_ hcount⟩
        rcases hfree with hfree | hfree
        · exact congrArg (List.count j) hfree
        · simp only [hfree]
          rw [List.count_append, List.count_singleton, if_neg (by simpa using Ne.symm hji), Nat.add_zero]

private theorem recycleLaw_of (h : WakeInv cfg s) (hrec : Recyclable s ownerID) : RecycleLaw cfg s ownerID (s.osSwtmrRecycle ownerID) := by
  obtain ⟨hcb,hfree,hlink⟩ := recycle_fold (l := List.range LOSCFG_BASE_CORE_SWTMR_LIMIT) h.swtmr
    (fun i hi => ⟨hrec.ids i hi,hrec.quiet i hi⟩) List.nodup_range fun j hj => List.mem_range.mp hj
  have hmem {i : Nat} (hi : Owned s ownerID i) : i ∈ List.range LOSCFG_BASE_CORE_SWTMR_LIMIT := List.mem_range.mpr (h.swtmr.live i hi.2)
  rw [← osSwtmrRecycle_eq] at hcb hfree hlink
  have hreleased (i : Nat) : ¬ Owned (s.osSwtmrRecycle ownerID) ownerID i := by
    intro hi
    by_cases hown : Owned s ownerID i
    · exact hi.2 ((hcb i).2 ⟨hmem hown,hown⟩)
    · rw [Owned, (hcb i).1 fun hm => hown hm.2] at hi
      exact hown hi
  have hcount (i : Nat) (hi : Owned s ownerID i) : (s.osSwtmrRecycle ownerID).freeList.count i = 1 := by
    rw [hfree, List.count_append, List.count_eq_zero_of_not_mem, zero_add]
    · exact List.count_eq_one_of_mem (List.nodup_range.filter _) (List.mem_filter.mpr ⟨hmem hi,by simpa using hi⟩)
    · exact fun hm => hi.2 ((h.swtmr.free i).mp hm).2.2
  have htaken : (s.osSwtmrRecycle ownerID).taken = s.taken := by
    rw [SwtmrState.taken, SwtmrState.taken, recycle_waking]
  have helse : ScansElsewhere (s.osSwtmrRecycle ownerID) ownerID (Owned s ownerID) := by
    refine ⟨fun i hi => ?_,?_⟩
    · rw [htaken] at hi
      have hnot : ¬ Owned s ownerID i := fun hown => hrec.quiet i hown hi
      obtain ⟨hlive,-⟩ := h.live i hi
      rw [(hcb i).1 fun hm => hnot hm.2]
      exact ⟨hlive,fun hown => hnot ⟨hown,hlive⟩,hnot⟩
    · rw [recycle_waking]
      exact h.apart
  refine ⟨fun i hi => (hcb i).1 fun hm => hi hm.2.1,fun c => ?_,fun x hx i hi => ?_,fun x hx i hi => ?_⟩
  · rw [hlink c]
    refine List.filter_congr fun i hi => ?_
    rw [decide_eq_decide]
    have hs := ((h.swtmr.link c i).mp hi).2.1
    refine not_congr ⟨fun hm => hm.2.1,fun ho => ?_⟩
    have hown : Owned s ownerID i := ⟨ho,by rw [hs]; decide⟩
    exact ⟨hmem hown,hown⟩
  · exact hreleased i ((helse.wakes hx).2.1 i hi)
  · obtain ⟨hstate,hcount'⟩ := (helse.wakes hx).2.2 i hi
    exact ⟨hstate.trans ((hcb i).2 ⟨hmem hi,hi⟩),hcount'.trans (hcount i hi)⟩

private theorem recycleLaw_ids (hlaw : RecycleLaw cfg s ownerID (s.osSwtmrRecycle ownerID)) (hi : Owned s ownerID i) :
    (s.cb i).usTimerID = i := by
  by_contra hid
  have hkeeps : (s.osSwtmrRecycle ownerID).cb i = s.cb i := by
    rw [osSwtmrRecycle_eq]
    exact recycle_keeps hid fun j hj => List.mem_range.mp hj
  exact hlaw.released _ .refl i (by rwa [Owned, hkeeps])

/-- SwtmrWake of a block that has been given back: it is on the free list again, or a timer again. -/
private theorem wake_freed (cfg : SwtmrConfig) (c startTime : Nat) (hmem : i ∈ s.freeList) :
    ∃ x, s.swtmrWake cfg c startTime 0 i = some x ∧ ((x.cb i).ucState ≠ .unused ∨ 2 ≤ x.freeList.count i) := by
  have hone : 1 ≤ s.freeList.count i := List.one_le_count_iff.mpr hmem
  rw [SwtmrState.swtmrWake]
  split
  next =>
    refine ⟨_,rfl,.inr ?_⟩
    change 2 ≤ (s.freeList ++ [i]).count i
    rw [List.count_append, List.count_singleton_self]
    exact Nat.succ_le_succ hone
  next =>
    refine ⟨_,rfl,.inl ?_⟩
    rw [SwtmrState.setCb_same]
    rintro ⟨⟩
  next =>
    -- at time 0 nothing has been missed
    obtain ⟨started,hstarted,hstate⟩ : ∃ started, startResponse cfg 0 (((s.pushHandler c ⟨(s.cb i).pfnHandler,(s.cb i).uwArg⟩).setCb i
        { (s.pushHandler c ⟨(s.cb i).pfnHandler,(s.cb i).uwArg⟩).cb i with
          uwOverrun := (((s.pushHandler c ⟨(s.cb i).pfnHandler,(s.cb i).uwArg⟩).cb i).uwOverrun + 1) % 2 ^ 32
          startTime := startTime }).cb i) = some started ∧ started.ucState = .ticking := by
      rw [startResponse]
      exact ⟨_,if_neg (Nat.not_lt_zero _),rfl⟩
    refine ⟨_,congrArg (Option.map _) hstarted,.inl ?_⟩
    simp only [SwtmrState.addSwtmr2TimeList, SwtmrState.setSortLink_cb, SwtmrState.setCb_same]
    exact fun he => absurd (hstate.symm.trans he) (by decide)

/-- A scan that is at a timer of the process brings the block back. -/
private theorem recycleLaw_quiet (hlaw : RecycleLaw cfg s ownerID (s.osSwtmrRecycle ownerID)) (hi : Owned s ownerID i) : i ∉ s.taken := by
  rintro ⟨c,t,hc⟩
  obtain ⟨-,hcount⟩ := hlaw.free _ .refl i hi
  obtain ⟨x,hx,hbad⟩ := wake_freed cfg c t (List.count_pos_iff.mp (by rw [hcount]; decide : 0 < _))
  have hwakes : Wakes cfg (s.osSwtmrRecycle ownerID) { x with waking := Function.update x.waking c none } := by
    refine ⟨c,0,?_⟩
    rw [SwtmrState.scanWake, recycle_waking, hc]
    exact congrArg (Option.map _) hx
  obtain ⟨hstate,hone⟩ := hlaw.free _ (.single hwakes) i hi
  rcases hbad with hbad | hbad
  · exact hbad hstate
  · exact absurd hone (Nat.ne_of_gt hbad)

/-- Along every run the timers of a process that exits are released just where their IDs are still those of their blocks and no
scan is at one of them. -/
theorem recycleLaw_iff (cfg : SwtmrConfig) (s : SwtmrState) (h : Run.Reachable (swtmrSystem cfg) (fun s c => c.Ok cfg s) s)
    (ownerID : Nat) : RecycleLaw cfg s ownerID (s.osSwtmrRecycle ownerID) ↔ Recyclable s ownerID :=
  ⟨fun hlaw => ⟨fun _ => recycleLaw_ids hlaw,fun _ => recycleLaw_quiet hlaw⟩,recycleLaw_of (swtmr_inv h)⟩

/-- Process 7 exits with a timer in block 0 that goes by the ID 0, while the scan is at a timer of process 8. -/
theorem recycleLaw_first_use : ∃ s, Run.Reachable (swtmrSystem config) (fun s c => c.Ok config s) s ∧ Owned s 7 0 ∧
    s.waking 0 = some (1,100) ∧ RecycleLaw config s 7 (s.osSwtmrRecycle 7) := by
  obtain ⟨s,l,hs,hw,-,hfree,hlink,hcb,hother⟩ := reachable_started 10 (by decide) (by decide)
  have hcreated := reachable_created hs hfree 8 1 (by decide) (by decide)
  generalize hx : SwtmrState.setCb _ 1 _ = x at hcreated
  have hcb1 : x.cb 1 = ⟨OS_SORT_LINK_INVALID_TIME,0,.created,.once,1,0,1,1,0,1,8,0⟩ := by
    rw [← hx, SwtmrState.setCb_same, hother 1 (by decide)]
    rfl
  have hcb0 : x.cb 0 = ⟨1000,0,.ticking,.once,0,0,10,10,0,1,7,0⟩ := by
    rw [← hx, SwtmrState.setCb_other (by decide), ← hcb]
  have hcbs (i : Nat) (h0 : i ≠ 0) (h1 : i ≠ 1) : x.cb i = swtmrBaseInit.cb i := by
    rw [← hx, SwtmrState.setCb_other h1, ← hother i h0]
  have hlink0 : (x.runqueue 0).swtmrSortLink.sortLink = [0] := hx ▸ hlink
  have hwx : x.waking = fun _ => none := hx ▸ hw
  have hstarted := reachable_start hcreated hwx (by decide) (by decide) hcb1
  generalize hy : SwtmrState.addSwtmr2TimeList _ 1 _ 0 = y at hstarted
  have hy1 : y.cb 1 = ⟨100,0,.ticking,.once,1,0,1,1,0,1,8,0⟩ := by
    simp [← hy, SwtmrState.addSwtmr2TimeList]
  have hys (i : Nat) (h1 : i ≠ 1) : y.cb i = x.cb i := by
    simp [← hy, SwtmrState.addSwtmr2TimeList, h1]
  have hlinky : (y.runqueue 0).swtmrSortLink.sortLink = [1,0] := by
    simp [← hy, SwtmrState.addSwtmr2TimeList, hlink0, hcb0, Sched.Timeout.addNode2SortLink, Sched.Timeout.later]
  have hwy : y.waking = fun _ => none := hy ▸ hwx
  have htaken := hstarted.call (.scanTake 0 150) (congrFun hwy 0) (by decide : ClockFits config 150)
  have hrun : (swtmrSystem config).run y (.scanTake 0 150) =
      { y.osDeleteNodeSortLink 0 1 with waking := Function.update (fun _ => none) 0 (some (1,100)) } := by
    simp [swtmrSystem, SwtmrCall.swtmrRun, SwtmrState.scanTake, hlinky, hy1, hwy]
  rw [hrun] at htaken
  have hz0 : (y.osDeleteNodeSortLink 0 1).cb 0 = ⟨1000,0,.ticking,.once,0,0,10,10,0,1,7,0⟩ := by
    rw [SwtmrState.osDeleteNodeSortLink_other (by decide), hys 0 (by decide), hcb0]
  have hzero (i : Nat) (hi : Owned (y.osDeleteNodeSortLink 0 1) 7 i) : i = 0 := by
    by_contra h0
    by_cases h1 : i = 1
    · subst h1
      rw [Owned, SwtmrState.osDeleteNodeSortLink_same, hy1] at hi
      exact absurd hi.1 (by decide)
    · rw [Owned, SwtmrState.osDeleteNodeSortLink_other h1, hys i h1, hcbs i h0 h1] at hi
      exact hi.2 rfl
  refine ⟨_,htaken,⟨congrArg SwtmrCtrl.uwOwnerPid hz0,?_⟩,rfl,
    (recycleLaw_iff config _ htaken 7).mpr ⟨fun i hi => ?_,fun i hi => ?_⟩⟩
  · simp only [hz0]
    decide
  · obtain rfl := hzero i hi
    exact congrArg SwtmrCtrl.usTimerID hz0
  · obtain rfl := hzero i hi
    rintro ⟨c,t,hc⟩
    obtain ⟨-,hc⟩ | ⟨-,hc⟩ := SwtmrState.update_eq (f := fun _ => none) (c := 0) (v := some (1,100)) hc
    · exact absurd (Prod.mk.inj (Option.some.inj hc)).1 (by decide)
    · exact absurd hc (Option.some_ne_none _).symm

/-- One process can take every block that is left. -/
private theorem reachable_drain (h : Run.Reachable (swtmrSystem config) (fun s c => c.Ok config s) s) :
    ∃ s', Run.Reachable (swtmrSystem config) (fun s c => c.Ok config s) s' ∧ s'.freeList = [] ∧
      (∀ i, i ∉ s.freeList → s'.cb i = s.cb i) ∧ s'.runqueue = s.runqueue ∧ s'.waking = s.waking := by
  generalize hl : s.freeList = l
  induction l generalizing s with
  | nil => exact ⟨s,h,hl,fun _ _ => rfl,rfl,rfl⟩
  | cons j l ih =>
    obtain ⟨s',hs',hfree,hcb,hrq,hw⟩ := ih (reachable_created h hl 8 1 (by decide) (by decide)) rfl
    refine ⟨s',hs',hfree,fun i hi => ?_,hrq,hw⟩
    rw [List.mem_cons, not_or] at hi
    rw [hcb i hi.2, SwtmrState.setCb_other hi.1]

/-- The timer of process 7 expires when no other block is free, and the process creates one again: the block now has the ID 1024,
and process 7 exits without releasing it. -/
theorem recycleLaw_fails_reuse : ¬ ∀ s, Run.Reachable (swtmrSystem config) (fun _ _ => True) s →
    ∀ ownerID, RecycleLaw config s ownerID (s.osSwtmrRecycle ownerID) := by
  intro hall
  obtain ⟨s,-,hs,hws,hfirst,-,hlink,hcb,-⟩ := reachable_started 1 (by decide) (by decide)
  obtain ⟨x,hx,hfree,hkeep,hrq,hw⟩ := reachable_drain hs
  have hcbx : x.cb 0 = ⟨100,0,.ticking,.once,0,0,1,1,0,1,7,0⟩ := (hkeep 0 hfirst).trans hcb
  have hlinkx : (x.runqueue 0).swtmrSortLink.sortLink = [0] := by rw [hrq, hlink]
  have hwx : x.waking = fun _ => none := hw.trans hws
  have htaken := hx.call (.scanTake 0 200) (congrFun hwx 0) (by decide : ClockFits config 200)
  have hwoken := htaken.call (.scanWake 0 200) trivial (by decide : ClockFits config 200)
  generalize hy : (swtmrSystem config).run ((swtmrSystem config).run x (.scanTake 0 200)) (.scanWake 0 200) = y at hwoken
  have hrun : y.freeList = [0] ∧ (y.cb 0).usTimerID = 1024 := by
    have hid : SwtmrState.nextTimerID 0 = 1024 := by decide
    rw [← hy]
    simp [swtmrSystem, SwtmrCall.swtmrRun, SwtmrState.scanTake, SwtmrState.scanWake, hlinkx, hcbx, SwtmrState.swtmrWake,
      SwtmrState.pushHandler, hfree, hid]
  have hcreate := reachable_created hwoken hrun.1 7 1 (by decide) (by decide)
  have hlaw := hall _ (hcreate.mono fun _ _ _ => trivial) 7
  have hid := recycleLaw_ids (i := 0) hlaw ⟨by simp [SwtmrState.createdCb],by simp [SwtmrState.createdCb]⟩
  rw [SwtmrState.setCb_same] at hid
  exact absurd (hrun.2.symm.trans hid) (by decide)

end LiteOsKernel.Swtmr
