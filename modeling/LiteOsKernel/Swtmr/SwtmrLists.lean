import LiteOsKernel.Swtmr.Swtmr
import LiteOsKernel.Sched.TimeoutQueue
import Mathlib.Data.List.TakeWhile
import Mathlib.Data.Set.Insert

/-! Which list each control block is on: the free list, a time list, or none where it is on its way between lists. -/
namespace LiteOsKernel.Swtmr
open Sched.Timeout (SortLinkAttribute addNode2SortLink addNode2SortLink_perm)

/-- The ticks are those of a UINT32. -/
structure TicksFit (swtmr : SwtmrCtrl) : Prop where
  interval : swtmr.uwInterval < 2 ^ 32
  expiry : swtmr.uwExpiry < 2 ^ 32

/-- The ID leads back to the block. -/
structure IdFits (index : Nat) (swtmr : SwtmrCtrl) : Prop where
  lt : swtmr.usTimerID < OS_SWTMR_MAX_TIMERID
  mod : swtmr.usTimerID % LOSCFG_BASE_CORE_SWTMR_LIMIT = index

/-- Every block is on the free list or a time list as its state says; hole has those on their way between lists. -/
structure SwtmrInv (hole : Set Nat) (s : SwtmrState) : Prop where
  nodup : s.freeList.Nodup
  free : ∀ i, i ∈ s.freeList ↔ i ∉ hole ∧ i < LOSCFG_BASE_CORE_SWTMR_LIMIT ∧ (s.cb i).ucState = .unused
  linkNodup : ∀ c, (s.runqueue c).swtmrSortLink.sortLink.Nodup
  link : ∀ c i, i ∈ (s.runqueue c).swtmrSortLink.sortLink ↔ i ∉ hole ∧ (s.cb i).ucState = .ticking ∧ (s.cb i).cpuid = c
  live : ∀ i, (s.cb i).ucState ≠ .unused → i < LOSCFG_BASE_CORE_SWTMR_LIMIT
  time : ∀ i, i ∉ hole → (s.cb i).ucState = .ticking → (s.cb i).responseTime < OS_SORT_LINK_INVALID_TIME
  ticks : ∀ i, TicksFit (s.cb i)
  ids : ∀ i, i < LOSCFG_BASE_CORE_SWTMR_LIMIT → IdFits i (s.cb i)
  sorted : ∀ c, (s.runqueue c).swtmrSortLink.sortLink.Pairwise fun i j => (s.cb i).responseTime ≤ (s.cb j).responseTime
  nodeNum : ∀ c, (s.runqueue c).swtmrSortLink.nodeNum = (s.runqueue c).swtmrSortLink.sortLink.length

/-- Where AddNode2SortLink puts a node: behind the first one, if that has its time, else in front of all that are later. -/
theorem addNode2SortLink_split {r : Nat → Nat} {l : List Nat} (h : l.Pairwise fun i j => r i ≤ r j) (n : Nat) :
    ∃ before after, l = before ++ after ∧ addNode2SortLink (fun i => some (r i)) l n = before ++ n :: after ∧
      (∀ j ∈ before, r j ≤ r n) ∧ ((∃ x rest, l = x :: rest ∧ r x = r n ∧ before = [x]) ∨
        (∀ x rest, l = x :: rest → r x ≠ r n) ∧ ∀ j ∈ after, r n < r j) := by
  cases l with
  | nil => exact ⟨[],[],rfl,rfl,nofun,.inr ⟨nofun,nofun⟩⟩
  | cons x rest =>
    obtain ⟨hx,hrest⟩ := List.pairwise_cons.mp h
    rw [addNode2SortLink]
    split_ifs with h1 h2
    · have hlt : r n < r x := by simpa [Sched.Timeout.later] using h1
      refine ⟨[],x :: rest,rfl,rfl,nofun,.inr ⟨fun y rest he => ?_,fun j hj => ?_⟩⟩
      · obtain ⟨rfl,-⟩ := List.cons.inj he
        exact hlt.ne'
      · rcases List.mem_cons.mp hj with rfl | hj
        · exact hlt
        · exact hlt.trans_le (hx j hj)
    · have heq : r x = r n := Option.some.inj h2
      exact ⟨[x],rest,rfl,rfl,fun j hj => (List.mem_singleton.mp hj ▸ heq).le,.inl ⟨x,rest,rfl,heq,rfl⟩⟩
    · simp only
      generalize hp : (fun listSorted => Sched.Timeout.later (some (r listSorted)) (some (r n))) = isLater
      have hsplit : ((x :: rest).reverse.dropWhile isLater).reverse ++ ((x :: rest).reverse.takeWhile isLater).reverse = x :: rest := by
        rw [← List.reverse_append, List.takeWhile_append_dropWhile, List.reverse_reverse]
      have hbefore := h
      rw [← hsplit, List.pairwise_append] at hbefore
      refine ⟨_,_,hsplit.symm,rfl,fun j hj => ?_,.inr ⟨fun y rest he => ?_,fun j hj => ?_⟩⟩
      · cases hd : (x :: rest).reverse.dropWhile isLater with
        | nil =>
          rw [hd] at hj
          exact absurd hj (by simp)
        | cons y d =>
          rw [hd, List.reverse_cons] at hj hbefore
          -- the scan from the back stops at y, which is the last of those before n
          have hy : r y ≤ r n := by
            have := List.head?_dropWhile_not isLater (x :: rest).reverse
            rw [hd] at this
            rw [← hp] at this
            simpa [Sched.Timeout.later] using this
          rcases List.mem_append.mp hj with hj | hj
          · exact ((List.pairwise_append.mp hbefore.1).2.2 j hj y (List.mem_singleton_self y)).trans hy
          · rw [List.mem_singleton.mp hj]
            exact hy
      · obtain ⟨rfl,-⟩ := List.cons.inj he
        exact fun he => h2 (congrArg some he)
      · have := List.mem_takeWhile_imp (List.mem_reverse.mp hj)
        rw [← hp] at this
        simpa [Sched.Timeout.later] using this

/-- AddNode2SortLink keeps the list sorted. -/
theorem addNode2SortLink_sorted {r : Nat → Nat} {l : List Nat} (h : l.Pairwise fun i j => r i ≤ r j) (n : Nat) :
    (addNode2SortLink (fun i => some (r i)) l n).Pairwise fun i j => r i ≤ r j := by
  obtain ⟨before,after,rfl,hadd,hle,hplace⟩ := addNode2SortLink_split h n
  obtain ⟨hbefore,hafter,hcross⟩ := List.pairwise_append.mp h
  have hge (j : Nat) (hj : j ∈ after) : r n ≤ r j := by
    rcases hplace with ⟨x,-,-,hx,rfl⟩ | ⟨-,hlater⟩
    · exact hx ▸ hcross x (List.mem_singleton_self x) j hj
    · exact (hlater j hj).le
  rw [hadd]
  refine List.pairwise_append.mpr ⟨hbefore,List.pairwise_cons.mpr ⟨hge,hafter⟩,fun i hi j hj => ?_⟩
  rcases List.mem_cons.mp hj with rfl | hj
  · exact hle i hi
  · exact hcross i hi j hj

namespace SwtmrState

variable {s s' : SwtmrState} {cfg : SwtmrConfig} {swtmr : SwtmrCtrl} {i j c : Nat} {hole : Option Nat} {link : SortLinkAttribute}

@[simp] theorem setCb_same : (s.setCb i swtmr).cb i = swtmr := Function.update_self ..

@[simp] theorem setCb_other (h : j ≠ i) : (s.setCb i swtmr).cb j = s.cb j := Function.update_of_ne h ..

@[simp] theorem setCb_freeList : (s.setCb i swtmr).freeList = s.freeList := rfl

@[simp] theorem setCb_runqueue : (s.setCb i swtmr).runqueue = s.runqueue := rfl

@[simp] theorem setSortLink_cb : (s.setSortLink c link).cb = s.cb := rfl

@[simp] theorem setSortLink_freeList : (s.setSortLink c link).freeList = s.freeList := rfl

@[simp] theorem setSortLink_same : ((s.setSortLink c link).runqueue c).swtmrSortLink = link := by
  simp [setSortLink]

@[simp] theorem setSortLink_other {d : Nat} (h : d ≠ c) : (s.setSortLink c link).runqueue d = s.runqueue d :=
  Function.update_of_ne h ..

@[simp] theorem swtmrDelete_same :
    (s.swtmrDelete i).cb i = { s.cb i with ucState := .unused, uwOwnerPid := OS_INVALID_VALUE } := setCb_same

@[simp] theorem swtmrDelete_other (h : j ≠ i) : (s.swtmrDelete i).cb j = s.cb j := setCb_other h

@[simp] theorem swtmrDelete_freeList : (s.swtmrDelete i).freeList = s.freeList ++ [i] := rfl

@[simp] theorem osDeleteNodeSortLink_same :
    (s.osDeleteNodeSortLink c i).cb i = { s.cb i with responseTime := OS_SORT_LINK_INVALID_TIME } := setCb_same

@[simp] theorem osDeleteNodeSortLink_other (h : j ≠ i) : (s.osDeleteNodeSortLink c i).cb j = s.cb j := setCb_other h

@[simp] theorem osDeleteNodeSortLink_freeList : (s.osDeleteNodeSortLink c i).freeList = s.freeList := rfl

theorem osDeleteNodeSortLink_link (d : Nat) : ((s.osDeleteNodeSortLink c i).runqueue d).swtmrSortLink.sortLink =
    if d = c then (s.runqueue d).swtmrSortLink.sortLink.erase i else (s.runqueue d).swtmrSortLink.sortLink := by
  by_cases h : d = c
  · subst h
    rw [if_pos rfl, osDeleteNodeSortLink, setSortLink_same]
  · rw [if_neg h, osDeleteNodeSortLink, setSortLink_other h, setCb_runqueue]

end SwtmrState

namespace SwtmrInv

variable {s : SwtmrState} {swtmr : SwtmrCtrl} {i c : Nat} {hole : Set Nat}

private theorem ne_of_not_hole (hi : i ∈ hole) {j : Nat} (hj : j ∉ hole) : j ≠ i := fun he => hj (he ▸ hi)

/-- A timer that leaves its time list is on its way. -/
theorem deleteNode (h : SwtmrInv hole s) (hh : i ∉ hole) (hi : (s.cb i).ucState = .ticking) :
    SwtmrInv (insert i hole) (s.osDeleteNodeSortLink (s.cb i).cpuid i) := by
  have hne {j : Nat} (hj : j ∉ insert i hole) : j ≠ i := ne_of_not_hole (Set.mem_insert i hole) hj
  have hlinks (d : Nat) : ((s.osDeleteNodeSortLink (s.cb i).cpuid i).runqueue d).swtmrSortLink.sortLink =
      (s.runqueue d).swtmrSortLink.sortLink.erase i := by
    rw [SwtmrState.osDeleteNodeSortLink_link]
    split_ifs with hd
    · rfl
    · exact (List.erase_of_not_mem fun hm => hd ((h.link d i).mp hm).2.2.symm).symm
  refine ⟨h.nodup,fun j => ?_,fun d => ?_,fun d j => ?_,fun j hj => ?_,fun j hj ht => ?_,fun j => ?_,fun j hj => ?_,
    fun d => ?_,fun d => ?_⟩
  · rw [SwtmrState.osDeleteNodeSortLink_freeList, h.free]
    by_cases hj : j = i
    · subst hj
      simp [hi]
    · simp [hj]
  · rw [hlinks]
    exact (h.linkNodup d).erase i
  · rw [hlinks]
    by_cases hj : j = i
    · subst hj
      exact iff_of_false (h.linkNodup d).not_mem_erase fun hm => hm.1 (Set.mem_insert j hole)
    · rw [List.mem_erase_of_ne hj, h.link, SwtmrState.osDeleteNodeSortLink_other hj]
      simp [hj]
  · by_cases hji : j = i
    · subst hji
      exact h.live j (by simp [hi])
    · rw [SwtmrState.osDeleteNodeSortLink_other hji] at hj
      exact h.live j hj
  · rw [SwtmrState.osDeleteNodeSortLink_other (hne hj)] at ht ⊢
    exact h.time j (fun hm => hj (Set.mem_insert_of_mem i hm)) ht
  · obtain ⟨h1,h2⟩ := h.ticks j
    by_cases hji : j = i
    · subst hji
      rw [SwtmrState.osDeleteNodeSortLink_same]
      exact ⟨h1,h2⟩
    · rw [SwtmrState.osDeleteNodeSortLink_other hji]
      exact ⟨h1,h2⟩
  · obtain ⟨h1,h2⟩ := h.ids j hj
    by_cases hji : j = i
    · subst hji
      rw [SwtmrState.osDeleteNodeSortLink_same]
      exact ⟨h1,h2⟩
    · rw [SwtmrState.osDeleteNodeSortLink_other hji]
      exact ⟨h1,h2⟩
  · rw [hlinks]
    have hnot {j : Nat} (hj : j ∈ (s.runqueue d).swtmrSortLink.sortLink.erase i) : j ≠ i := by
      rintro rfl
      exact (h.linkNodup d).not_mem_erase hj
    refine ((h.sorted d).sublist (List.erase_sublist ..)).imp_of_mem fun {a b} ha hb hle => ?_
    rw [SwtmrState.osDeleteNodeSortLink_other (hnot ha), SwtmrState.osDeleteNodeSortLink_other (hnot hb)]
    exact hle
  · rw [hlinks]
    by_cases hd : d = (s.cb i).cpuid
    · subst hd
      have hmem : i ∈ (s.runqueue (s.cb i).cpuid).swtmrSortLink.sortLink := (h.link _ i).mpr ⟨hh,hi,rfl⟩
      rw [SwtmrState.osDeleteNodeSortLink, SwtmrState.setSortLink_same, h.nodeNum, List.length_erase_of_mem hmem]
    · rw [SwtmrState.osDeleteNodeSortLink, SwtmrState.setSortLink_other hd, SwtmrState.setCb_runqueue, h.nodeNum,
        List.erase_of_not_mem fun hm => hd ((h.link d i).mp hm).2.2.symm]

/-- A block on its way may be written. -/
theorem setCb_hole (h : SwtmrInv hole s) (hh : i ∈ hole) (hi : i < LOSCFG_BASE_CORE_SWTMR_LIMIT) (ht : TicksFit swtmr)
    (hid : IdFits i swtmr) : SwtmrInv hole (s.setCb i swtmr) := by
  have hne {j : Nat} (hj : j ∉ hole) : j ≠ i := ne_of_not_hole hh hj
  refine ⟨h.nodup,fun j => ?_,h.linkNodup,fun d j => ?_,fun j hj => ?_,fun j hj hs => ?_,fun j => ?_,fun j hj => ?_,
    fun d => ?_,h.nodeNum⟩
  · rw [SwtmrState.setCb_freeList, h.free]
    refine and_congr_right fun hj => ?_
    rw [SwtmrState.setCb_other (hne hj)]
  · rw [SwtmrState.setCb_runqueue, h.link]
    refine and_congr_right fun hj => ?_
    rw [SwtmrState.setCb_other (hne hj)]
  · by_cases hji : j = i
    · exact hji ▸ hi
    · rw [SwtmrState.setCb_other hji] at hj
      exact h.live j hj
  · rw [SwtmrState.setCb_other (hne hj)] at hs ⊢
    exact h.time j hj hs
  · by_cases hji : j = i
    · subst hji
      rwa [SwtmrState.setCb_same]
    · rw [SwtmrState.setCb_other hji]
      exact h.ticks j
  · by_cases hji : j = i
    · subst hji
      rwa [SwtmrState.setCb_same]
    · rw [SwtmrState.setCb_other hji]
      exact h.ids j hj
  · refine (h.sorted d).imp_of_mem fun {a b} ha hb hle => ?_
    rw [SwtmrState.setCb_other (hne ((h.link d a).mp ha).1), SwtmrState.setCb_other (hne ((h.link d b).mp hb).1)]
    exact hle

/-- A created block is on no list, so it may be on its way or not. -/
theorem created (hi : (s.cb i).ucState = .created) : SwtmrInv hole s ↔ SwtmrInv (insert i hole) s := by
  have hfree (j : Nat) : (j ∉ hole ∧ j < LOSCFG_BASE_CORE_SWTMR_LIMIT ∧ (s.cb j).ucState = .unused) ↔
      j ∉ insert i hole ∧ j < LOSCFG_BASE_CORE_SWTMR_LIMIT ∧ (s.cb j).ucState = .unused := by
    by_cases hj : j = i
    · subst hj
      simp [hi]
    · simp [hj]
  have hlink (c j : Nat) : (j ∉ hole ∧ (s.cb j).ucState = .ticking ∧ (s.cb j).cpuid = c) ↔
      j ∉ insert i hole ∧ (s.cb j).ucState = .ticking ∧ (s.cb j).cpuid = c := by
    by_cases hj : j = i
    · subst hj
      simp [hi]
    · simp [hj]
  constructor
  · intro h
    exact ⟨h.nodup,fun j => (h.free j).trans (hfree j),h.linkNodup,fun c j => (h.link c j).trans (hlink c j),h.live,
      fun j hj hs => h.time j (fun hm => hj (Set.mem_insert_of_mem i hm)) hs,h.ticks,h.ids,h.sorted,h.nodeNum⟩
  · intro h
    refine ⟨h.nodup,fun j => (h.free j).trans (hfree j).symm,h.linkNodup,fun c j => (h.link c j).trans (hlink c j).symm,h.live,
      fun j hj hs => h.time j (fun hm => ?_) hs,h.ticks,h.ids,h.sorted,h.nodeNum⟩
    rcases Set.mem_insert_iff.mp hm with rfl | hm
    · exact absurd (hi.symm.trans hs) (by decide)
    · exact hj hm

/-- SwtmrDelete puts the block on the free list. -/
theorem delete (h : SwtmrInv (insert i hole) s) (hh : i ∉ hole) (hi : i < LOSCFG_BASE_CORE_SWTMR_LIMIT) :
    SwtmrInv hole (s.swtmrDelete i) := by
  have hfree : i ∉ s.freeList := fun hm => ((h.free i).mp hm).1 (Set.mem_insert i hole)
  have hlive {j : Nat} (hj : ((s.swtmrDelete i).cb j).ucState ≠ .unused) : j ≠ i := by
    rintro rfl
    exact hj (congrArg SwtmrCtrl.ucState SwtmrState.swtmrDelete_same)
  refine ⟨?_,fun j => ?_,h.linkNodup,fun d j => ?_,fun j hj => ?_,fun j hj hs => ?_,fun j => ?_,fun j hj => ?_,fun d => ?_,
    h.nodeNum⟩
  · rw [SwtmrState.swtmrDelete_freeList]
    exact List.nodup_append.mpr ⟨h.nodup,List.nodup_singleton i,fun a ha b hb => by
      rw [List.mem_singleton.mp hb]
      exact fun he => hfree (he ▸ ha)⟩
  · rw [SwtmrState.swtmrDelete_freeList, List.mem_append, List.mem_singleton, h.free]
    by_cases hj : j = i
    · subst hj
      simp [hi, hh]
    · simp [hj]
  · refine (h.link d j).trans ?_
    by_cases hj : j = i
    · subst hj
      simp
    · simp [hj]
  · have hne := hlive hj
    rw [SwtmrState.swtmrDelete_other hne] at hj
    exact h.live j hj
  · have hne : j ≠ i := hlive (by rw [hs]; decide)
    rw [SwtmrState.swtmrDelete_other hne] at hs ⊢
    exact h.time j (by simp [hne, hj]) hs
  · obtain ⟨h1,h2⟩ := h.ticks j
    by_cases hji : j = i
    · subst hji
      rw [SwtmrState.swtmrDelete_same]
      exact ⟨h1,h2⟩
    · rw [SwtmrState.swtmrDelete_other hji]
      exact ⟨h1,h2⟩
  · obtain ⟨h1,h2⟩ := h.ids j hj
    by_cases hji : j = i
    · subst hji
      rw [SwtmrState.swtmrDelete_same]
      exact ⟨h1,h2⟩
    · rw [SwtmrState.swtmrDelete_other hji]
      exact ⟨h1,h2⟩
  · refine (h.sorted d).imp_of_mem fun {a b} ha hb hle => ?_
    have hne {j : Nat} (hj : j ∉ insert i hole) : j ≠ i := ne_of_not_hole (Set.mem_insert i hole) hj
    rwa [SwtmrState.swtmrDelete_other (hne ((h.link d a).mp ha).1), SwtmrState.swtmrDelete_other (hne ((h.link d b).mp hb).1)]

/-- OsAdd2SortLink puts a started timer on the time list of a CPU. -/
theorem add (h : SwtmrInv (insert i hole) s) (hh : i ∉ hole) (hi : i < LOSCFG_BASE_CORE_SWTMR_LIMIT)
    (hs : swtmr.ucState = .ticking) (htime : swtmr.responseTime < OS_SORT_LINK_INVALID_TIME) (ht : TicksFit swtmr)
    (hid : IdFits i swtmr) (c : Nat) : SwtmrInv hole (s.addSwtmr2TimeList i swtmr c) := by
  have h' : SwtmrInv (insert i hole) (s.setCb i { swtmr with cpuid := c }) :=
    h.setCb_hole (Set.mem_insert i hole) hi ⟨ht.interval,ht.expiry⟩ ⟨hid.lt,hid.mod⟩
  rw [SwtmrState.addSwtmr2TimeList]
  generalize hx : s.setCb i { swtmr with cpuid := c } = x at h'
  have hcb : x.cb i = { swtmr with cpuid := c } := hx ▸ SwtmrState.setCb_same
  have hperm := addNode2SortLink_perm (fun j => some (x.cb j).responseTime) (x.runqueue c).swtmrSortLink.sortLink i
  refine ⟨h'.nodup,fun j => ?_,fun d => ?_,fun d j => ?_,h'.live,fun j hjh hj => ?_,h'.ticks,h'.ids,fun d => ?_,fun d => ?_⟩
  · refine (h'.free j).trans ?_
    by_cases hj : j = i
    · subst hj
      simp [hcb, hs]
    · simp [hj]
  · by_cases hd : d = c
    · subst hd
      rw [SwtmrState.setSortLink_same]
      refine hperm.nodup_iff.mpr (List.nodup_cons.mpr ⟨fun hm => ?_,h'.linkNodup d⟩)
      exact ((h'.link d i).mp hm).1 (Set.mem_insert i hole)
    · rw [SwtmrState.setSortLink_other hd]
      exact h'.linkNodup d
  · by_cases hd : d = c
    · subst hd
      rw [SwtmrState.setSortLink_same]
      refine hperm.mem_iff.trans (List.mem_cons.trans ?_)
      rw [h'.link]
      by_cases hj : j = i
      · subst hj
        simp [hcb, hs, hh]
      · simp [hj]
    · rw [SwtmrState.setSortLink_other hd, h'.link]
      by_cases hj : j = i
      · subst hj
        simp [hcb, Ne.symm hd]
      · simp [hj]
  · by_cases hji : j = i
    · subst hji
      rw [SwtmrState.setSortLink_cb, hcb]
      exact htime
    · exact h'.time j (by simp [hji, hjh]) hj
  · by_cases hd : d = c
    · subst hd
      rw [SwtmrState.setSortLink_same]
      exact addNode2SortLink_sorted (h'.sorted d) i
    · rw [SwtmrState.setSortLink_other hd]
      exact h'.sorted d
  · by_cases hd : d = c
    · subst hd
      rw [SwtmrState.setSortLink_same]
      simp only
      rw [hperm.length_eq, List.length_cons, h'.nodeNum]
    · rw [SwtmrState.setSortLink_other hd]
      exact h'.nodeNum d

/-- A write that changes neither the state nor the lists of a block. -/
theorem setCb_keep (h : SwtmrInv hole s) (hstate : swtmr.ucState = (s.cb i).ucState) (hcpu : swtmr.cpuid = (s.cb i).cpuid)
    (hresp : swtmr.responseTime = (s.cb i).responseTime) (ht : TicksFit (s.cb i) → TicksFit swtmr)
    (hid : IdFits i (s.cb i) → IdFits i swtmr) : SwtmrInv hole (s.setCb i swtmr) := by
  have hcb (j : Nat) : ((s.setCb i swtmr).cb j).ucState = (s.cb j).ucState ∧ ((s.setCb i swtmr).cb j).cpuid = (s.cb j).cpuid ∧
      ((s.setCb i swtmr).cb j).responseTime = (s.cb j).responseTime ∧ (TicksFit (s.cb j) → TicksFit ((s.setCb i swtmr).cb j)) := by
    by_cases hj : j = i
    · subst hj
      rw [SwtmrState.setCb_same]
      exact ⟨hstate,hcpu,hresp,ht⟩
    · rw [SwtmrState.setCb_other hj]
      exact ⟨rfl,rfl,rfl,id⟩
  refine ⟨h.nodup,fun j => ?_,h.linkNodup,fun d j => ?_,fun j => ?_,fun j => ?_,fun j => (hcb j).2.2.2 (h.ticks j),fun j hj => ?_,
    fun d => ?_,h.nodeNum⟩
  · rw [(hcb j).1]
    exact h.free j
  · rw [(hcb j).1, (hcb j).2.1]
    exact h.link d j
  · rw [(hcb j).1]
    exact h.live j
  · rw [(hcb j).1, (hcb j).2.2.1]
    exact h.time j
  · by_cases hji : j = i
    · subst hji
      rw [SwtmrState.setCb_same]
      exact hid (h.ids j hj)
    · rw [SwtmrState.setCb_other hji]
      exact h.ids j hj
  · refine (h.sorted d).imp fun {a b} hle => ?_
    rwa [(hcb a).2.2.1, (hcb b).2.2.1]

/-- The timers that the CPUs have taken off are on no list. -/
theorem waking (h : SwtmrInv hole s) (w : Nat → Option (Nat × Nat)) : SwtmrInv hole { s with waking := w } :=
  ⟨h.nodup,h.free,h.linkNodup,h.link,h.live,h.time,h.ticks,h.ids,h.sorted,h.nodeNum⟩

end SwtmrInv

end LiteOsKernel.Swtmr
